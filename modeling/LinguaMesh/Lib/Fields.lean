import Mathlib.Data.List.Nodup
import Mathlib.Data.List.Range
import Mathlib.Data.List.Sublists

/-!
# Records written as marked fields

A record has the fields that are present of some names, in the order of the names. It
is written field by field: the mark of the name, then the value. Nothing keeps a value
apart from the mark after it, so a text may be written by several records; `readings` lists them
(`mem_readings`).
-/

namespace LinguaMesh.Fields

variable {α β ι : Type}

/-! ## Fields that are present -/

def present (fields : List (ι × Option β)) : List (ι × β) :=
  fields.filterMap fun f => f.2.map (f.1, ·)

theorem present_names (fields : List (ι × Option β)) :
    ((present fields).map Prod.fst).Sublist (fields.map Prod.fst) := by
  induction fields with
  | nil => exact .slnil
  | cons f fields ih =>
    obtain ⟨name, value⟩ := f
    cases value with
    | none => exact ih.cons name
    | some value => exact ih.cons_cons name

/-- The present fields tell the values of all of them. -/
theorem present_inj {fields fields' : List (ι × Option β)}
    (hnames : fields.map Prod.fst = fields'.map Prod.fst) (hnodup : (fields.map Prod.fst).Nodup)
    (h : present fields = present fields') : fields = fields' := by
  have first {name : ι} {value : β} {l l' : List (ι × Option β)} (hname : name ∉ l.map Prod.fst) :
      present l ≠ (name, value) :: present l' := by
    intro heq
    have hmem : name ∈ (present l).map Prod.fst := by
      rw [heq]
      exact List.mem_cons_self
    exact hname ((present_names l).subset hmem)
  induction fields generalizing fields' with
  | nil => exact (List.map_eq_nil_iff.mp hnames.symm).symm
  | cons f fields ih =>
    obtain ⟨f', fields', rfl⟩ : ∃ f' l, fields' = f' :: l := by
      cases fields' with
      | nil => cases hnames
      | cons f' l => exact ⟨f', l, rfl⟩
    obtain ⟨name, value⟩ := f
    obtain ⟨name', value'⟩ := f'
    obtain ⟨hname, hrest⟩ := List.cons.inj hnames
    obtain ⟨hnotMem, hnodupRest⟩ := List.nodup_cons.mp hnodup
    obtain rfl : name = name' := hname
    cases value with
    | none =>
      cases value' with
      | none => rw [ih hrest hnodupRest h]
      | some value' => exact absurd h (first (l := fields) hnotMem)
    | some value =>
      cases value' with
      | none => exact absurd h.symm (first (l := fields') (hrest ▸ hnotMem))
      | some value' =>
        obtain ⟨hvalue, hfields⟩ := List.cons.inj h
        rw [ih hrest hnodupRest hfields, (Prod.mk.inj hvalue).2]

/-- Fields of some of the names, in their order, are those that are present. -/
theorem present_lookup [DecidableEq ι] {names : List ι} {fields : List (ι × β)}
    (hnames : (fields.map Prod.fst).Sublist names) (hnodup : names.Nodup) :
    present (names.map fun name => (name, fields.lookup name)) = fields := by
  induction names generalizing fields with
  | nil => exact (List.map_eq_nil_iff.mp (List.sublist_nil.mp hnames)).symm
  | cons name names ih =>
    obtain ⟨hnotMem, hnodupRest⟩ := List.nodup_cons.mp hnodup
    rw [List.map_cons]
    rcases List.sublist_cons_iff.mp hnames with hrest | ⟨rest, hfields, hrest⟩
    · have hlookup : fields.lookup name = none := by
        refine List.lookup_eq_none_iff.mpr fun f hf => bne_iff_ne.mpr fun heq => ?_
        exact hnotMem (hrest.subset (heq ▸ List.mem_map_of_mem hf))
      rw [hlookup]
      exact ih hrest hnodupRest
    · obtain ⟨⟨name', value⟩, fields, rfl, rfl, rfl⟩ := List.map_eq_cons_iff.mp hfields
      have hlater : names.map (fun n => (n, ((name', value) :: fields).lookup n)) =
          names.map fun n => (n, fields.lookup n) := by
        refine List.map_congr_left fun n hn => ?_
        have hne : n ≠ name' := fun heq => hnotMem (heq ▸ hn)
        rw [List.lookup_cons, beq_eq_false_iff_ne.mpr hne]
      rw [hlater, List.lookup_cons_self]
      exact congrArg ((name', value) :: ·) (ih hrest hnodupRest)

/-! ## Writing and reading -/

variable [DecidableEq α]

def writeFields (mark : ι → List α) (fields : List (ι × List α)) : List α :=
  fields.flatMap fun f => mark f.1 ++ f.2

/-- The records of fields of the names, in their order and with good values, that are written as
the text: a name is left out, or its mark begins the text and some part of the rest is the value. -/
def readings (mark : ι → List α) (good : List α → Bool) :
    List ι → List α → List (List (ι × List α))
  | [], text => if text.isEmpty then [[]] else []
  | name :: names, text =>
    readings mark good names text ++
      if (mark name).isPrefixOf text then
        let rest := text.drop (mark name).length
        (List.range (rest.length + 1)).flatMap fun k =>
          if good (rest.take k) then
            (readings mark good names (rest.drop k)).map ((name, rest.take k) :: ·)
          else []
      else []

theorem mem_readings {mark : ι → List α} {good : List α → Bool} {names : List ι} {text : List α}
    {fields : List (ι × List α)} :
    fields ∈ readings mark good names text ↔
      (fields.map Prod.fst).Sublist names ∧ writeFields mark fields = text ∧
        ∀ f ∈ fields, good f.2 = true := by
  induction names generalizing text fields with
  | nil =>
    rw [readings]
    constructor
    · intro h
      cases text with
      | nil =>
        obtain rfl := List.mem_singleton.mp h
        exact ⟨.slnil, rfl, fun _ hf => absurd hf List.not_mem_nil⟩
      | cons c text => exact absurd h List.not_mem_nil
    · rintro ⟨hnames, rfl, -⟩
      obtain rfl := List.map_eq_nil_iff.mp (List.sublist_nil.mp hnames)
      exact List.mem_singleton.mpr rfl
  | cons name names ih =>
    rw [readings, List.mem_append, ih]
    constructor
    · rintro (⟨hnames, htext, hgood⟩ | hmem)
      · exact ⟨hnames.cons name, htext, hgood⟩
      · split at hmem
        · rename_i hmark
          obtain ⟨rest, rfl⟩ := List.isPrefixOf_iff_prefix.mp hmark
          rw [List.drop_left] at hmem
          obtain ⟨k, -, hk⟩ := List.mem_flatMap.mp hmem
          split at hk
          · rename_i hvalue
            obtain ⟨later, hlater, rfl⟩ := List.mem_map.mp hk
            obtain ⟨hnames, htext, hgood⟩ := ih.mp hlater
            refine ⟨hnames.cons_cons name, ?_, List.forall_mem_cons.mpr ⟨hvalue, hgood⟩⟩
            rw [writeFields, List.flatMap_cons, ← writeFields, htext, List.append_assoc, List.take_append_drop]
          · exact absurd hk List.not_mem_nil
        · exact absurd hmem List.not_mem_nil
    · rintro ⟨hnames, rfl, hgood⟩
      rcases List.sublist_cons_iff.mp hnames with hrest | ⟨rest, hfields, hrest⟩
      · exact .inl ⟨hrest, rfl, hgood⟩
      · obtain ⟨⟨name', value⟩, later, rfl, rfl, rfl⟩ := List.map_eq_cons_iff.mp hfields
        obtain ⟨hvalue, hlater⟩ := List.forall_mem_cons.mp hgood
        have htext : writeFields mark ((name', value) :: later) = mark name' ++ (value ++ writeFields mark later) := by
          rw [writeFields, List.flatMap_cons, List.append_assoc]
          rfl
        rw [htext, if_pos (List.isPrefixOf_iff_prefix.mpr (List.prefix_append _ _)), List.drop_left]
        refine .inr (List.mem_flatMap.mpr ⟨value.length, ?_, ?_⟩)
        · rw [List.mem_range, List.length_append]
          omega
        · rw [List.take_left, if_pos hvalue, List.drop_left]
          exact List.mem_map_of_mem (ih.mpr ⟨hrest, rfl, hlater⟩)

end LinguaMesh.Fields
