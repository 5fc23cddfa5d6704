import Mathlib.Data.List.Forall2

/-!
# The first error of a list

Steps are taken one after the other, up to the first that fails.

* `bind_eq_ok_iff` — two steps succeed
* `mapM_eq_ok_iff` — every step succeeds
* `mapM_eq_error_iff` — the first step that fails decides
* `mapM_map` — steps that give the same results in other words
* `mapM_congr_of_first` — nothing after the first step that fails counts
* `attempted`, `mapM_congr_of_attempted` — the steps that are taken, and no others count
-/

namespace Hack

variable {α β ε : Type} {f : α → Except ε β}

theorem bind_eq_ok_iff {a : Except ε α} {g : α → Except ε β} {b : β} :
    a >>= g = .ok b ↔ ∃ c, a = .ok c ∧ g c = .ok b := by
  cases a with
  | error e => exact ⟨fun h => (nomatch h), fun ⟨c, h, _⟩ => (nomatch h)⟩
  | ok c => exact ⟨fun h => ⟨c, rfl, h⟩, fun ⟨_, hc, h⟩ => Except.ok.inj hc ▸ h⟩

theorem mapM_cons_of_ok {a : α} {b : β} (h : f a = .ok b) (as : List α) :
    (a :: as).mapM f = (as.mapM f).map (b :: ·) := by
  rw [List.mapM_cons, h]
  cases as.mapM f <;> rfl

theorem mapM_cons_of_error {a : α} {e : ε} (h : f a = .error e) (as : List α) :
    (a :: as).mapM f = .error e := by
  rw [List.mapM_cons, h]
  rfl

/-- All steps succeed if each of them does. -/
theorem mapM_eq_ok_iff {as : List α} {bs : List β} :
    as.mapM f = .ok bs ↔ List.Forall₂ (fun a b => f a = .ok b) as bs := by
  induction as generalizing bs with
  | nil =>
    rw [List.mapM_nil, List.forall₂_nil_left_iff]
    exact ⟨fun h => (Except.ok.inj h).symm, fun h => congrArg _ h.symm⟩
  | cons a as ih =>
    cases ha : f a with
    | error e =>
      rw [mapM_cons_of_error ha]
      constructor
      · intro h
        cases h
      · intro h
        cases h with
        | cons hb _ => rw [ha] at hb; cases hb
    | ok b =>
      rw [mapM_cons_of_ok ha]
      constructor
      · intro h
        cases hs : as.mapM f with
        | error e => rw [hs] at h; cases h
        | ok cs =>
          rw [hs] at h
          cases h
          exact .cons ha (ih.mp hs)
      · intro h
        cases h with
        | cons hb hs =>
          rw [ha] at hb
          cases hb
          rw [ih.mpr hs]
          rfl

theorem exists_of_mem_right {R : α → β → Prop} {as : List α} {bs : List β} {b : β}
    (h : List.Forall₂ R as bs) (hb : b ∈ bs) : ∃ a ∈ as, R a b := by
  induction h with
  | nil => cases hb
  | cons hab _ ih =>
    rcases List.mem_cons.mp hb with rfl | hb
    · exact ⟨_, List.mem_cons_self, hab⟩
    · obtain ⟨a, ha, hab⟩ := ih hb
      exact ⟨a, List.mem_cons_of_mem _ ha, hab⟩

/-- An error is that of the first step that fails. -/
theorem mapM_eq_error_iff {as : List α} {e : ε} :
    as.mapM f = .error e
      ↔ ∃ before a after, as = before ++ a :: after
          ∧ (∀ b ∈ before, ∃ c, f b = .ok c) ∧ f a = .error e := by
  induction as with
  | nil =>
    constructor
    · intro h
      cases h
    · rintro ⟨before, a, after, h, -⟩
      cases before <;> cases h
  | cons a as ih =>
    cases ha : f a with
    | error e' =>
      rw [mapM_cons_of_error ha]
      constructor
      · intro h
        cases h
        exact ⟨[], a, as, rfl, by simp, ha⟩
      · rintro ⟨before, a', after, h, hbefore, ha'⟩
        cases before with
        | nil =>
          cases h
          rw [ha] at ha'
          cases ha'
          rfl
        | cons b before =>
          cases h
          obtain ⟨c, hc⟩ := hbefore a List.mem_cons_self
          rw [ha] at hc
          cases hc
    | ok b =>
      rw [mapM_cons_of_ok ha]
      constructor
      · intro h
        cases hs : as.mapM f with
        | ok cs => rw [hs] at h; cases h
        | error e' =>
          rw [hs] at h
          cases h
          obtain ⟨before, a', after, rfl, hbefore, ha'⟩ := ih.mp hs
          refine ⟨a :: before, a', after, rfl, ?_, ha'⟩
          intro x hx
          rcases List.mem_cons.mp hx with rfl | hx
          · exact ⟨b, ha⟩
          · exact hbefore x hx
      · rintro ⟨before, a', after, h, hbefore, ha'⟩
        cases before with
        | nil =>
          cases h
          rw [ha] at ha'
          cases ha'
        | cons x before =>
          cases h
          rw [ih.mpr ⟨before, a', after, rfl, fun y hy => hbefore y (.tail _ hy), ha'⟩]
          rfl

theorem exists_mapM_eq_ok_iff {as : List α} :
    (∃ bs, as.mapM f = .ok bs) ↔ ∀ a ∈ as, ∃ b, f a = .ok b := by
  constructor
  · rintro ⟨bs, hbs⟩ a ha
    obtain ⟨b, -, hb⟩ := exists_of_mem_right (R := flip fun a b => f a = .ok b)
      (mapM_eq_ok_iff.mp hbs).flip ha
    exact ⟨b, hb⟩
  · intro hall
    cases hs : as.mapM f with
    | ok bs => exact ⟨bs, rfl⟩
    | error e =>
      obtain ⟨before, a, after, rfl, -, ha⟩ := mapM_eq_error_iff.mp hs
      obtain ⟨b, hb⟩ := hall a List.mem_append_cons_self
      rw [ha] at hb
      cases hb

/-- Steps on other values that give the results of `f` in other words. -/
theorem mapM_map {γ δ ζ : Type} {t : α → γ} {g : γ → Except ζ δ} {φ : ε → ζ} {ψ : β → δ}
    (h : ∀ a, g (t a) = ((f a).map ψ).mapError φ) (as : List α) :
    (as.map t).mapM g = ((as.mapM f).map (List.map ψ)).mapError φ := by
  induction as with
  | nil => rfl
  | cons a as ih =>
    have ha := h a
    cases hf : f a with
    | error e =>
      rw [hf] at ha
      rw [List.map_cons, mapM_cons_of_error ha, mapM_cons_of_error hf]
      rfl
    | ok b =>
      rw [hf] at ha
      rw [List.map_cons, mapM_cons_of_ok ha, mapM_cons_of_ok hf, ih]
      cases as.mapM f <;> rfl

/-- Steps that agree up to the first that fails have the same results. -/
theorem mapM_congr_of_first {g : α → Except ε β} {as : List α}
    (h : ∀ before a after, as = before ++ a :: after → (∀ b ∈ before, ∃ c, f b = .ok c) →
      f a = g a) :
    as.mapM f = as.mapM g := by
  induction as with
  | nil => rfl
  | cons a as ih =>
    have hfirst : f a = g a := h [] a as rfl (by simp)
    cases ha : f a with
    | error e => rw [mapM_cons_of_error ha, mapM_cons_of_error (hfirst ▸ ha)]
    | ok b =>
      rw [mapM_cons_of_ok ha, mapM_cons_of_ok (hfirst ▸ ha), ih]
      intro before a' after has hbefore
      refine h (a :: before) a' after (by rw [has, List.cons_append]) ?_
      intro x hx
      rcases List.mem_cons.mp hx with rfl | hx
      · exact ⟨b, ha⟩
      · exact hbefore x hx

/-- The steps up to the first that fails, with that one. -/
def attempted (f : α → Except ε β) : List α → List α
  | [] => []
  | a :: as =>
    match f a with
    | .ok _ => a :: attempted f as
    | .error _ => [a]

theorem attempted_cons_of_ok {a : α} {b : β} (h : f a = .ok b) (as : List α) :
    attempted f (a :: as) = a :: attempted f as := by
  rw [attempted, h]

theorem attempted_cons_of_error {a : α} {e : ε} (h : f a = .error e) (as : List α) :
    attempted f (a :: as) = [a] := by
  rw [attempted, h]

theorem exists_attempted_append (f : α → Except ε β) (as : List α) :
    ∃ later, as = attempted f as ++ later := by
  induction as with
  | nil => exact ⟨[], rfl⟩
  | cons a as ih =>
    obtain ⟨later, hlater⟩ := ih
    cases ha : f a with
    | ok b => exact ⟨later, by rw [attempted_cons_of_ok ha, List.cons_append, ← hlater]⟩
    | error e => exact ⟨as, by rw [attempted_cons_of_error ha]; rfl⟩

theorem attempted_eq_self {as : List α} {bs : List β} (h : as.mapM f = .ok bs) :
    attempted f as = as := by
  have hall := exists_mapM_eq_ok_iff.mp ⟨bs, h⟩
  clear h
  induction as with
  | nil => rfl
  | cons a as ih =>
    obtain ⟨b, hb⟩ := hall a List.mem_cons_self
    rw [attempted_cons_of_ok hb, ih fun c hc => hall c (List.mem_cons_of_mem _ hc)]

/-- Only the last step that is taken may fail. -/
theorem attempted_eq_nil_or_snoc (f : α → Except ε β) (as : List α) :
    attempted f as = [] ∨ ∃ before last, attempted f as = before ++ [last]
      ∧ ∀ b ∈ before, ∃ c, f b = .ok c := by
  induction as with
  | nil => exact .inl rfl
  | cons a as ih =>
    right
    cases ha : f a with
    | error e => exact ⟨[], a, attempted_cons_of_error ha as, by simp⟩
    | ok b =>
      rw [attempted_cons_of_ok ha]
      rcases ih with hnil | ⟨before, last, hsnoc, hbefore⟩
      · exact ⟨[], a, by rw [hnil]; rfl, by simp⟩
      · refine ⟨a :: before, last, by rw [hsnoc]; rfl, ?_⟩
        intro x hx
        rcases List.mem_cons.mp hx with rfl | hx
        · exact ⟨b, ha⟩
        · exact hbefore x hx

/-- Only the steps that are taken count. -/
theorem mapM_congr_of_attempted {g : α → Except ε β} {as : List α}
    (h : ∀ a ∈ attempted f as, f a = g a) :
    as.mapM f = as.mapM g ∧ attempted f as = attempted g as := by
  induction as with
  | nil => exact ⟨rfl, rfl⟩
  | cons a as ih =>
    cases ha : f a with
    | error e =>
      rw [attempted_cons_of_error ha] at h
      have hg : g a = .error e := (h a List.mem_cons_self).symm.trans ha
      rw [mapM_cons_of_error ha, mapM_cons_of_error hg, attempted_cons_of_error ha,
        attempted_cons_of_error hg]
      exact ⟨rfl, rfl⟩
    | ok b =>
      rw [attempted_cons_of_ok ha] at h
      have hg : g a = .ok b := (h a List.mem_cons_self).symm.trans ha
      obtain ⟨hmapM, hattempted⟩ := ih fun b hb => h b (List.mem_cons_of_mem _ hb)
      rw [mapM_cons_of_ok ha, mapM_cons_of_ok hg, hmapM, attempted_cons_of_ok ha,
        attempted_cons_of_ok hg, hattempted]
      exact ⟨rfl, rfl⟩

end Hack
