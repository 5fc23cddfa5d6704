import Mathlib.Data.List.Nodup
import Hack.Assembler.Session
import Hack.Proofs.Encoding

/-!
# The addresses of variables

Looking names up and encoding instructions allocate variables, one step after the other, and only
names that have no address at all. The variables have the addresses from 16 on in the order of
their allocation.

* `Allocates` — what encoding and looking up can do, step by step
* `AssembleM.allocates_encodeLines`, `AssembleM.allocates_addressOf` — they do nothing else
* `Ranked` — the variables of an assembler have the addresses of their ranks
* `Ranked.of_allocates` — no steps change this
-/

namespace Hack

open SymbolTable (variableBase)

variable {run mid final : Assembler} {name : String}

/-! ## Allocating step by step -/

/-- What calls do that bind no labels: they give the next free address to a name without address,
or report something else. -/
inductive Allocates : Assembler → Assembler → Prop
  | refl (run : Assembler) : Allocates run run
  | allocate {run mid : Assembler} {name : String} (hsteps : Allocates run mid)
      (hunbound : mid.symbols.address? name = none) :
      Allocates run ⟨mid.symbols.allocate name,
        mid.log.push (.variableAllocated name mid.symbols.nextFree)⟩
  | record {run mid : Assembler} {event : Event} (hsteps : Allocates run mid)
      (hevent : event.allocated? = none) :
      Allocates run { mid with log := mid.log.push event }

theorem Allocates.trans (hfirst : Allocates run mid) (hsecond : Allocates mid final) :
    Allocates run final := by
  induction hsecond with
  | refl => exact hfirst
  | allocate _ hunbound ih => exact .allocate ih hunbound
  | record _ hevent ih => exact .record ih hevent

namespace AssembleM

variable {α β : Type}

theorem after_bind (action : AssembleM α) (next : α → AssembleM β) (run : Assembler) :
    (action >>= next).after run
      = match action run with
        | .ok a mid => (next a).after mid
        | .error _ mid => mid := by
  rw [after, bind_apply]
  cases action run <;> rfl

theorem allocates_bind {action : AssembleM α} {next : α → AssembleM β}
    (haction : ∀ run, Allocates run (action.after run))
    (hnext : ∀ a run, Allocates run ((next a).after run)) (run : Assembler) :
    Allocates run ((action >>= next).after run) := by
  have hfirst := haction run
  rw [after] at hfirst
  rw [after_bind]
  cases hrun : action run with
  | ok a mid =>
    rw [hrun] at hfirst
    exact hfirst.trans (hnext a mid)
  | error error mid =>
    rw [hrun] at hfirst
    exact hfirst

theorem allocates_pure (a : α) (run : Assembler) :
    Allocates run ((pure a : AssembleM α).after run) :=
  .refl run

theorem allocates_record {event : Event} (hevent : event.allocated? = none) (run : Assembler) :
    Allocates run ((record event).after run) :=
  .record (.refl run) hevent

theorem allocates_addressOf (name : String) (run : Assembler) :
    Allocates run ((addressOf name).after run) := by
  cases h : run.symbols.address? name with
  | some address =>
    rw [after, addressOf_of_bound h]
    exact .refl run
  | none =>
    rw [after, addressOf_of_unbound h]
    exact .allocate (.refl run) h

theorem allocates_resolve (line : Nat) (operand : String) (run : Assembler) :
    Allocates run ((resolve line operand).after run) := by
  have hunbound (hmeaning : run.symbols.meaning operand = .ok none) :
      run.symbols.address? operand = none := by
    obtain ⟨-, hlabel, -, hvariable⟩ := SymbolTable.meaning_eq_ok_none_iff.mp hmeaning
    rw [SymbolTable.address?, hlabel, hvariable]
    rfl
  have h := resolves_resolve line operand run
  unfold after
  generalize resolve line operand run = result at h
  cases h with
  | unread | known | far => exact .refl run
  -- the operand is allocated whether its address is in range or not
  | new hmeaning | full hmeaning => exact .allocate (.refl run) (hunbound hmeaning)

theorem allocates_encodeLines (lines : List Line) :
    ∀ run, Allocates run ((encodeLines lines).after run) :=
  encodeLines_induction (P := fun action => ∀ run, Allocates run (action.after run))
    allocates_pure allocates_bind allocates_resolve
    (fun _ _ _ => allocates_record rfl) lines

end AssembleM

/-! ## What allocating keeps -/

theorem Allocates.labelAddress? (hsteps : Allocates run final) (name : String) :
    final.symbols.labelAddress? name = run.symbols.labelAddress? name := by
  induction hsteps with
  | refl => rfl
  | allocate _ _ ih => exact ih
  | record _ _ ih => exact ih

theorem Assembler.allocated_push (run : Assembler) (symbols : SymbolTable) (event : Event) :
    (⟨symbols, run.log.push event⟩ : Assembler).allocated
      = run.allocated ++ event.allocated?.toList := by
  rw [allocated, allocated, Array.toList_push, List.filterMap_append]
  cases h : event.allocated? <;> simp [h]

theorem Allocates.allocated_isPrefix (hsteps : Allocates run final) :
    run.allocated <+: final.allocated := by
  induction hsteps with
  | refl => exact List.prefix_rfl
  | allocate _ _ ih | record _ _ ih =>
    rw [Assembler.allocated_push]
    exact ih.trans (List.prefix_append _ _)

/-- A label is not allocated. -/
theorem Allocates.mem_allocated (hsteps : Allocates run final) (hmem : name ∈ final.allocated) :
    name ∈ run.allocated ∨ run.symbols.labelAddress? name = none := by
  induction hsteps with
  | refl => exact .inl hmem
  | @allocate mid other hsteps hunbound ih =>
    rw [Assembler.allocated_push] at hmem
    rcases List.mem_append.mp hmem with hmem | hmem
    · exact ih hmem
    · cases List.mem_singleton.mp hmem
      rw [← hsteps.labelAddress?]
      exact .inr (Option.or_eq_none_iff.mp hunbound).1
  | record _ hevent ih =>
    rw [Assembler.allocated_push, hevent, Option.toList_none, List.append_nil] at hmem
    exact ih hmem

/-- The variables of an assembler have the addresses from 16 on, in the order of their
allocation. -/
structure Ranked (run : Assembler) : Prop where
  nodup : run.allocated.Nodup
  nextFree : run.symbols.nextFree = variableBase + UInt32.ofNat run.allocated.length
  variableAddress? : ∀ name, run.symbols.variableAddress? name
    = if name ∈ run.allocated then some (variableBase + UInt32.ofNat (run.allocated.idxOf name))
      else none

theorem toNat_variableBase_add {rank : Nat} (hroom : rank < UInt32.size - 16) :
    (variableBase + UInt32.ofNat rank).toNat = 16 + rank := by
  have hsize : UInt32.size = 2 ^ 32 := rfl
  rw [UInt32.toNat_add, UInt32.toNat_ofNat']
  show (16 + rank % 2 ^ 32) % 2 ^ 32 = 16 + rank
  omega

namespace Ranked

theorem notMem_of_unbound (h : Ranked run) (hunbound : run.symbols.address? name = none) :
    name ∉ run.allocated := by
  intro hmem
  have hvariable := (Option.or_eq_none_iff.mp hunbound).2
  rw [h.variableAddress?, if_pos hmem] at hvariable
  cases hvariable

/-- Neither the labels nor the rest of the log count. -/
theorem congr (h : Ranked run) (hallocated : final.allocated = run.allocated)
    (hnext : final.symbols.nextFree = run.symbols.nextFree)
    (hvariable : ∀ name, final.symbols.variableAddress? name = run.symbols.variableAddress? name) :
    Ranked final := by
  constructor
  · rw [hallocated]
    exact h.nodup
  · rw [hallocated, hnext]
    exact h.nextFree
  · intro name
    rw [hallocated, hvariable]
    exact h.variableAddress? name

theorem allocate (h : Ranked run) (hunbound : run.symbols.address? name = none) :
    Ranked ⟨run.symbols.allocate name,
      run.log.push (.variableAllocated name run.symbols.nextFree)⟩ := by
  have hnew := h.notMem_of_unbound hunbound
  have hallocated := run.allocated_push (run.symbols.allocate name)
    (.variableAllocated name run.symbols.nextFree)
  simp only [Event.allocated?, Option.toList_some] at hallocated
  constructor
  · rw [hallocated, ← List.concat_eq_append]
    exact h.nodup.concat hnew
  · rw [hallocated, List.length_append, List.length_singleton, UInt32.ofNat_add, ← UInt32.add_assoc,
      ← h.nextFree]
    rfl
  · intro other
    rw [hallocated, SymbolTable.variableAddress?_allocate, h.variableAddress?]
    by_cases hname : name = other
    · subst hname
      rw [if_pos rfl, if_pos (by simp), List.idxOf_append_of_notMem hnew, h.nextFree]
      simp
    · have hmem : other ∈ run.allocated ++ [name] ↔ other ∈ run.allocated := by
        simp [Ne.symm hname]
      rw [if_neg hname]
      by_cases hother : other ∈ run.allocated
      · rw [if_pos hother, if_pos (hmem.mpr hother), List.idxOf_append_of_mem hother]
      · rw [if_neg hother, if_neg (hmem.not.mpr hother)]

theorem of_allocates (h : Ranked run) (hsteps : Allocates run final) : Ranked final := by
  induction hsteps with
  | refl => exact h
  | allocate _ hunbound ih => exact ih.allocate hunbound
  | @record mid event _ hevent ih =>
    refine ih.congr ?_ rfl fun _ => rfl
    rw [mid.allocated_push mid.symbols event, hevent, Option.toList_none, List.append_nil]

theorem initial : Ranked .initial :=
  ⟨List.nodup_nil, rfl, fun _ => rfl⟩

/-- The names with an address as a variable are those that were allocated. -/
theorem isSome_variableAddress?_iff (h : Ranked run) :
    (run.symbols.variableAddress? name).isSome ↔ name ∈ run.allocated := by
  rw [h.variableAddress?]
  by_cases hmem : name ∈ run.allocated <;> simp [hmem]

/-- Later allocations change no address. -/
theorem variableAddress?_of_isPrefix (h : Ranked run) (hfinal : Ranked final)
    (hearlier : run.allocated <+: final.allocated) (hmem : name ∈ run.allocated) :
    final.symbols.variableAddress? name = run.symbols.variableAddress? name := by
  obtain ⟨later, hlater⟩ := hearlier
  rw [h.variableAddress?, hfinal.variableAddress?, ← hlater, if_pos hmem,
    if_pos (List.mem_append_left later hmem), List.idxOf_append_of_mem hmem]

/-- While there is room for it, an address is 16 more than the rank. -/
theorem variableAddress?_eq_some_iff (h : Ranked run)
    (hroom : run.allocated.length < UInt32.size - 16) {address : Address} :
    run.symbols.variableAddress? name = some address
      ↔ ∃ rank, run.allocated[rank]? = some name ∧ address.toNat = 16 + rank := by
  rw [h.variableAddress?, Option.ite_none_right_eq_some]
  constructor
  · rintro ⟨hmem, hrank⟩
    have hlt := List.idxOf_lt_length_of_mem hmem
    refine ⟨run.allocated.idxOf name, List.getElem?_idxOf hmem, ?_⟩
    rw [← Option.some.inj hrank, toNat_variableBase_add (Nat.lt_trans hlt hroom)]
  · rintro ⟨rank, hname, haddress⟩
    obtain ⟨hlt, rfl⟩ := List.getElem?_eq_some_iff.mp hname
    refine ⟨List.getElem_mem hlt, congrArg some (UInt32.toNat_inj.mp ?_)⟩
    rw [h.nodup.idxOf_getElem, toNat_variableBase_add (Nat.lt_trans hlt hroom), haddress]

end Ranked

end Hack
