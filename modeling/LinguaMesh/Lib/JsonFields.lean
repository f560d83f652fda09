import Mathlib.Algebra.Ring.Nat
import Mathlib.Algebra.Ring.Int.Defs
import Mathlib.Data.List.Nodup
import Mathlib.Data.List.Perm.Basic
import Mathlib.Data.List.Sort

/-!
# Records as JSON objects

`JsonTree` is what a JSON text is parsed to. A parser may give the members of an
object in another order than the text (`Reordered`); one that keeps them in a map
sorts them (`reordered_sorted`).

A reader of a type `ReadsBack` a value from a tree if it does from every reordering of
the tree. Each reader has one lemma for the values that it reads back, and the reader of a
field has one for the objects that have it (`Has`): a record is read back by
the lemmas of its fields.
-/

namespace LinguaMesh

/-- A number that is not an integer is a `float`, with no value here. -/
inductive JsonTree where
  | null
  | bool (b : Bool)
  | number (n : Int)
  | float
  | string (s : List Char)
  | array (items : List JsonTree)
  | object (members : List (String × JsonTree))

namespace JsonTree

mutual

/-- The same tree, with the members of each object in some order. -/
inductive Reordered : JsonTree → JsonTree → Prop where
  | null : Reordered null null
  | bool (b : Bool) : Reordered (bool b) (bool b)
  | number (n : Int) : Reordered (number n) (number n)
  | float : Reordered float float
  | string (s : List Char) : Reordered (string s) (string s)
  | array {items items' : List JsonTree} (h : ReorderedItems items items') :
      Reordered (array items) (array items')
  | object {members members' found : List (String × JsonTree)} (h : ReorderedMembers members members')
      (hperm : members'.Perm found) : Reordered (object members) (object found)

inductive ReorderedItems : List JsonTree → List JsonTree → Prop where
  | nil : ReorderedItems [] []
  | cons {item item' : JsonTree} {items items' : List JsonTree} (h : Reordered item item')
      (hitems : ReorderedItems items items') : ReorderedItems (item :: items) (item' :: items')

inductive ReorderedMembers : List (String × JsonTree) → List (String × JsonTree) → Prop where
  | nil : ReorderedMembers [] []
  | cons {key : String} {value value' : JsonTree} {members members' : List (String × JsonTree)}
      (h : Reordered value value') (hmembers : ReorderedMembers members members') :
      ReorderedMembers ((key, value) :: members) ((key, value') :: members')

end

/-! ## Sorting the members -/

mutual

/-- The tree with the members of each object by their keys. -/
def sorted : JsonTree → JsonTree
  | null => null
  | bool b => bool b
  | number n => number n
  | float => float
  | string s => string s
  | array items => array (sortedItems items)
  | object members => object ((sortedMembers members).insertionSort fun m m' => m.1 ≤ m'.1)

def sortedItems : List JsonTree → List JsonTree
  | [] => []
  | item :: items => sorted item :: sortedItems items

def sortedMembers : List (String × JsonTree) → List (String × JsonTree)
  | [] => []
  | (key, value) :: members => (key, sorted value) :: sortedMembers members

end

mutual

theorem reordered_sorted (v : JsonTree) : Reordered v v.sorted := by
  cases v with
  | null => exact .null
  | bool b => exact .bool b
  | number n => exact .number n
  | float => exact .float
  | string s => exact .string s
  | array items => exact .array (reordered_items items)
  | object members => exact .object (reordered_members members) (List.perm_insertionSort _ _).symm

theorem reordered_items (items : List JsonTree) : ReorderedItems items (sortedItems items) := by
  match items with
  | [] => exact .nil
  | item :: items => exact .cons (reordered_sorted item) (reordered_items items)

theorem reordered_members (members : List (String × JsonTree)) :
    ReorderedMembers members (sortedMembers members) := by
  match members with
  | [] => exact .nil
  | (key, value) :: members => exact .cons (reordered_sorted value) (reordered_members members)

end

/-! ## Members of an object -/

/-- The object has a member, reordered. -/
def Has (found : List (String × JsonTree)) (key : String) (v : JsonTree) : Prop :=
  ∃ w, found.lookup key = some w ∧ Reordered v w

theorem lookup_of_mem {found : List (String × JsonTree)} {key : String} {w : JsonTree}
    (hkeys : (found.map Prod.fst).Nodup) (h : (key, w) ∈ found) : found.lookup key = some w := by
  induction found with
  | nil => cases h
  | cons m found ih =>
    rw [List.map_cons, List.nodup_cons] at hkeys
    rw [List.lookup_cons]
    rcases List.mem_cons.mp h with rfl | h
    · rw [beq_self_eq_true]
    · have hne : key ≠ m.1 := fun heq => hkeys.1 (heq ▸ List.mem_map_of_mem h)
      rw [beq_eq_false_iff_ne.mpr hne]
      exact ih hkeys.2 h

theorem ReorderedMembers.keys {members members' : List (String × JsonTree)}
    (h : ReorderedMembers members members') : members'.map Prod.fst = members.map Prod.fst := by
  match h with
  | .nil => rfl
  | .cons _ hmembers => rw [List.map_cons, List.map_cons, hmembers.keys]

theorem ReorderedMembers.mem {members members' : List (String × JsonTree)} {key : String}
    {v : JsonTree} (h : ReorderedMembers members members') (hv : (key, v) ∈ members) :
    ∃ w, (key, w) ∈ members' ∧ Reordered v w := by
  match h with
  | .nil => cases hv
  | .cons hvalue hmembers =>
    rcases List.mem_cons.mp hv with heq | hv
    · cases heq
      exact ⟨_, List.mem_cons_self, hvalue⟩
    · obtain ⟨w, hw, h⟩ := hmembers.mem hv
      exact ⟨w, List.mem_cons_of_mem _ hw, h⟩

/-- A reordering of an object without a repeated key has the members, and no other key. -/
theorem Reordered.has {members : List (String × JsonTree)} {w : JsonTree}
    (h : Reordered (.object members) w) (hkeys : (members.map Prod.fst).Nodup) :
    ∃ found, w = .object found ∧ (found.map Prod.fst).Perm (members.map Prod.fst) ∧
      members.Forall fun m => Has found m.1 m.2 := by
  cases h with
  | @object _ members' found h hperm =>
    have hfound : (found.map Prod.fst).Perm (members.map Prod.fst) := by
      rw [← h.keys]
      exact (hperm.map Prod.fst).symm
    refine ⟨found, rfl, hfound, List.forall_iff_forall_mem.mpr fun m hm => ?_⟩
    obtain ⟨w, hw, hvalue⟩ := h.mem hm
    exact ⟨w, lookup_of_mem (hfound.nodup_iff.mpr hkeys) (hperm.mem_iff.mp hw), hvalue⟩

/-! ## Reading -/

section Reading

variable {α : Type} {read : JsonTree → Option α}

def readBool : JsonTree → Option Bool
  | bool b => some b
  | _ => none

def readString : JsonTree → Option (List Char)
  | string s => some s
  | _ => none

/-- An unsigned number with so many bits. -/
def readUnsigned (bits : Nat) : JsonTree → Option Nat
  | number n => if 0 ≤ n ∧ n < 2 ^ bits then some n.toNat else none
  | _ => none

/-- A variant without data: its name, or an object with nothing but its name. -/
def readVariant (variant : String → Option α) : JsonTree → Option α
  | string s => variant (String.ofList s)
  | object [(name, null)] => variant name
  | _ => none

def readOption (read : JsonTree → Option α) : JsonTree → Option (Option α)
  | null => some none
  | v => (read v).map some

def readArray (read : JsonTree → Option α) : JsonTree → Option (List α)
  | array items => items.mapM read
  | _ => none

/-- A field that has to be there. -/
def required (read : JsonTree → Option α) (key : String) (found : List (String × JsonTree)) :
    Option α := (found.lookup key).bind read

/-- A field that may be left out. -/
def defaulted (default : α) (read : JsonTree → Option α) (key : String)
    (found : List (String × JsonTree)) : Option α :=
  match found.lookup key with
  | none => some default
  | some v => read v

/-! ## Reading back -/

def ReadsBack (read : JsonTree → Option α) (v : JsonTree) (a : α) : Prop :=
  ∀ w, Reordered v w → read w = some a

theorem readsBack_bool (b : Bool) : ReadsBack readBool (bool b) b := by
  intro w h
  cases h
  rfl

theorem readsBack_string (s : List Char) : ReadsBack readString (string s) s := by
  intro w h
  cases h
  rfl

theorem readsBack_unsigned {bits n : Nat} (hn : n < 2 ^ bits) :
    ReadsBack (readUnsigned bits) (number n) n := by
  intro w h
  cases h
  have hlt : (n : Int) < 2 ^ bits := (Int.ofNat_lt.mpr hn).trans_eq (Int.natCast_pow 2 bits)
  exact if_pos ⟨Int.natCast_nonneg n, hlt⟩

theorem readsBack_variant {variant : String → Option α} {name : String} {a : α}
    (h : variant name = some a) : ReadsBack (readVariant variant) (string name.toList) a := by
  intro w hw
  cases hw
  rw [readVariant, String.ofList_toList, h]

theorem readsBack_map {β : Type} {f : α → β} {v : JsonTree} {a : α} {b : β} (h : ReadsBack read v a)
    (hb : f a = b) : ReadsBack (fun v => (read v).map f) v b := by
  intro w hw
  rw [← hb]
  exact congrArg (Option.map f) (h w hw)

theorem number_ne_null (n : Int) : number n ≠ null := fun h => JsonTree.noConfusion h

/-- An absent value is `null`, which no present one is written as. -/
theorem readsBack_option {write : α → JsonTree} {a : Option α}
    (h : ∀ x, a = some x → ReadsBack read (write x) x) (hnull : ∀ x, write x ≠ null) :
    ReadsBack (readOption read) ((a.map write).getD null) a := by
  intro w hw
  cases a with
  | none =>
    cases hw
    rfl
  | some x =>
    have hread := h x rfl w hw
    have hw' : w ≠ null := by
      rintro rfl
      change Reordered (write x) null at hw
      generalize hv : write x = v at hw
      cases hw
      exact hnull x hv
    cases w with
    | null => exact absurd rfl hw'
    | _ => exact congrArg (Option.map some) hread

theorem readsBack_items {write : α → JsonTree} {items : List JsonTree} (l : List α)
    (h : ∀ a ∈ l, ReadsBack read (write a) a) (hitems : ReorderedItems (l.map write) items) :
    items.mapM read = some l := by
  induction l generalizing items with
  | nil =>
    cases hitems
    rfl
  | cons a l ih =>
    cases hitems with
    | cons hitem hitems =>
      rw [List.mapM_cons, h a List.mem_cons_self _ hitem,
        ih (fun b hb => h b (List.mem_cons_of_mem _ hb)) hitems]
      rfl

theorem readsBack_array {write : α → JsonTree} {l : List α} (h : ∀ a ∈ l, ReadsBack read (write a) a) :
    ReadsBack (readArray read) (array (l.map write)) l := by
  intro w hw
  cases hw with
  | array hitems => exact readsBack_items l h hitems

variable {found : List (String × JsonTree)} {key : String} {v : JsonTree} {a : α}

theorem Has.required (hhas : Has found key v) (h : ReadsBack read v a) :
    required read key found = some a := by
  obtain ⟨w, hlookup, hw⟩ := hhas
  unfold JsonTree.required
  rw [hlookup]
  exact h w hw

theorem Has.defaulted (hhas : Has found key v) (h : ReadsBack read v a) (default : α) :
    defaulted default read key found = some a := by
  obtain ⟨w, hlookup, hw⟩ := hhas
  unfold JsonTree.defaulted
  rw [hlookup]
  exact h w hw

end Reading

end JsonTree

end LinguaMesh
