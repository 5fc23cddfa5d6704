import Std.Data.ExtTreeMap
import Hack.Word

/-!
# Symbol tables

A symbol table binds names to addresses, as labels and as variables. A label may be bound again, and
the last binding counts. A variable is bound once, to the next free address of data memory. A name
may be both; then it stands for the label.

* `labelAddress?_defineLabel`, `variableAddress?_defineLabel` — what binding a label changes
* `labelAddress?_allocate`, `variableAddress?_allocate` — what allocating a variable changes
* `SymbolTable.ext_lookup` — tables with the same bindings and the same next address are equal
-/

namespace Hack

/-- The names that a program binds. -/
structure SymbolTable where
  labelMap : Std.ExtTreeMap String Address
  variableMap : Std.ExtTreeMap String Address
  /-- The address that the next variable gets. -/
  nextFree : Address

namespace SymbolTable

/-! ## Reading -/

/-- The address of the first variable. -/
def variableBase : Address := 16

/-- The table without bindings. -/
def empty : SymbolTable := ⟨∅, ∅, variableBase⟩

/-- The address that a name has as a label. -/
def labelAddress? (table : SymbolTable) (name : String) : Option Address := table.labelMap[name]?

/-- The address that a name has as a variable. -/
def variableAddress? (table : SymbolTable) (name : String) : Option Address :=
  table.variableMap[name]?

/-- The address of a name, the one of the label if it is both a label and a variable. -/
def address? (table : SymbolTable) (name : String) : Option Address :=
  (table.labelAddress? name).or (table.variableAddress? name)

/-! ## Binding -/

/-- Binds a name as a label, in place of its earlier binding as a label. -/
def defineLabel (table : SymbolTable) (name : String) (address : Address) : SymbolTable :=
  { table with labelMap := table.labelMap.insert name address }

/-- Binds a name as a variable, to the next free address. -/
def allocate (table : SymbolTable) (name : String) : SymbolTable :=
  { table with
    variableMap := table.variableMap.insert name table.nextFree
    nextFree := table.nextFree + 1 }

theorem labelAddress?_defineLabel (table : SymbolTable) (name other : String) (address : Address) :
    (table.defineLabel name address).labelAddress? other
      = if name = other then some address else table.labelAddress? other := by
  simp [labelAddress?, defineLabel, Std.ExtTreeMap.getElem?_insert]

@[simp] theorem variableAddress?_defineLabel (table : SymbolTable) (name other : String)
    (address : Address) :
    (table.defineLabel name address).variableAddress? other = table.variableAddress? other := rfl

@[simp] theorem labelAddress?_allocate (table : SymbolTable) (name other : String) :
    (table.allocate name).labelAddress? other = table.labelAddress? other := rfl

theorem variableAddress?_allocate (table : SymbolTable) (name other : String) :
    (table.allocate name).variableAddress? other
      = if name = other then some table.nextFree else table.variableAddress? other := by
  simp [variableAddress?, allocate, Std.ExtTreeMap.getElem?_insert]

/-! ## Equality -/

theorem ext_lookup {first second : SymbolTable}
    (hlabels : ∀ name, first.labelAddress? name = second.labelAddress? name)
    (hvariables : ∀ name, first.variableAddress? name = second.variableAddress? name)
    (hnext : first.nextFree = second.nextFree) : first = second := by
  obtain ⟨l, v, n⟩ := first
  obtain ⟨l', v', n'⟩ := second
  have hl : l = l' := Std.ExtTreeMap.ext_getElem? hlabels
  have hv : v = v' := Std.ExtTreeMap.ext_getElem? hvariables
  have hn : n = n' := hnext
  rw [hl, hv, hn]

end SymbolTable

end Hack
