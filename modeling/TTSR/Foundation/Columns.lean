import Mathlib.Data.List.Dedup
import TTSR.Foundation.Value

/-!
# Tables with typed columns

A columnar file gives each column one type, so the structs of a column share
their keys. Rows that are written as dictionaries come back with every key that
some value of their column has, and with null under it where the value itself
has none (`readBack`). The values are the ones a column can hold together; of
others nothing is said.
-/

namespace TTSR.Foundation.Columns

/-- The structs among the values of a column. -/
def structs (column : List Json) : List (List (String × Json)) :=
  column.filterMap fun
    | .obj fields => some fields
    | _ => none

/-- The keys its structs share. -/
def keys (column : List Json) : List String :=
  ((structs column).flatMap fun fields => fields.map Prod.fst).dedup

/-- The column of what its structs have under a key. -/
def child (key : String) (column : List Json) : List Json :=
  (structs column).filterMap (Dict.lookupEntries key)

/-- The column of what its lists hold. -/
def elements (column : List Json) : List Json :=
  column.flatMap fun
    | .arr xs => xs
    | _ => []

mutual

/-- A value of the column, as it is read back. -/
def readBack (column : List Json) : Json → Json
  | .arr xs => .arr (readElements (elements column) xs)
  | .obj fields =>
      let read := readFields column fields
      .obj ((keys column).map fun key =>
        (key, (Dict.lookupEntries key read).getD .null))
  | .null => .null
  | .bool b => .bool b
  | .int n => .int n
  | .float x => .float x
  | .str s => .str s

def readElements (column : List Json) : List Json → List Json
  | [] => []
  | x :: xs => readBack column x :: readElements column xs

def readFields (column : List Json) :
    List (String × Json) → List (String × Json)
  | [] => []
  | (key, x) :: fields =>
      (key, readBack (child key column) x) :: readFields column fields

end

/-- A struct of the column, as it is read back. -/
def readStruct (column : List Json) (fields : List (String × Json)) :
    List (String × Json) :=
  (keys column).map fun key =>
    (key, (Dict.lookupEntries key (readFields column fields)).getD .null)

@[simp] theorem readBack_obj (column : List Json)
    (fields : List (String × Json)) :
    readBack column (.obj fields) = .obj (readStruct column fields) := by
  rw [readBack, readStruct]

@[simp] theorem readBack_str (column : List Json) (s : String) :
    readBack column (.str s) = .str s := by
  rw [readBack]

@[simp] theorem readBack_int (column : List Json) (n : ℤ) :
    readBack column (.int n) = .int n := by
  rw [readBack]

theorem readElements_eq_map (column xs : List Json) :
    readElements column xs = xs.map (readBack column) := by
  induction xs with
  | nil => rw [readElements, List.map_nil]
  | cons x xs ih => rw [readElements, List.map_cons, ih]

theorem readBack_arr (column xs : List Json) :
    readBack column (.arr xs) = .arr (xs.map (readBack (elements column))) := by
  rw [readBack, readElements_eq_map]

theorem lookup_readFields (key : String) (column : List Json)
    (fields : List (String × Json)) :
    Dict.lookupEntries key (readFields column fields) =
      (Dict.lookupEntries key fields).map (readBack (child key column)) := by
  induction fields with
  | nil =>
      rw [readFields]
      rfl
  | cons field fields ih =>
      obtain ⟨k, x⟩ := field
      rw [readFields, Dict.lookupEntries, Dict.lookupEntries, ih]
      by_cases hk : k = key
      · subst hk
        rw [if_pos rfl, if_pos rfl, Option.map_some]
      · rw [if_neg hk, if_neg hk]

/-! ## Present and absent keys -/

section Keys

variable {column : List Json} {fields : List (String × Json)} {key : String}

theorem mem_keys : key ∈ keys column ↔
    ∃ fields, .obj fields ∈ column ∧ key ∈ fields.map Prod.fst := by
  unfold keys structs
  rw [List.mem_dedup, List.mem_flatMap]
  constructor
  · rintro ⟨fields, hfields, hkey⟩
    obtain ⟨j, hj, hsome⟩ := List.mem_filterMap.mp hfields
    cases j with
    | obj fields' =>
        obtain rfl := Option.some.inj hsome
        exact ⟨_, hj, hkey⟩
    | _ => cases hsome
  · rintro ⟨fields, hfields, hkey⟩
    exact ⟨fields, List.mem_filterMap.mpr ⟨_, hfields, rfl⟩, hkey⟩

theorem mem_child {x : Json} (hmem : .obj fields ∈ column)
    (hx : Dict.lookupEntries key fields = some x) : x ∈ child key column :=
  List.mem_filterMap.mpr ⟨fields, List.mem_filterMap.mpr ⟨_, hmem, rfl⟩, hx⟩

theorem lookup_map_keys (f : String → Json) (ks : List String) :
    Dict.lookupEntries key (ks.map fun k => (k, f k)) =
      if key ∈ ks then some (f key) else none := by
  induction ks with
  | nil => rfl
  | cons k ks ih =>
      rw [List.map_cons, Dict.lookupEntries, ih]
      by_cases hk : k = key
      · subst hk
        simp
      · simp [hk, Ne.symm hk]

/-- What a struct has under a key of its own is read back under it. -/
theorem lookup_readStruct_of_some {x : Json} (hmem : .obj fields ∈ column)
    (hx : Dict.lookupEntries key fields = some x) :
    Dict.lookupEntries key (readStruct column fields) =
      some (readBack (child key column) x) := by
  have hkey : key ∈ keys column := by
    refine mem_keys.mpr ⟨fields, hmem, ?_⟩
    by_contra habsent
    rw [Dict.lookupEntries_eq_none_iff.mpr habsent] at hx
    cases hx
  rw [readStruct, lookup_map_keys, if_pos hkey, lookup_readFields, hx]
  rfl

/-! ## Columns of one shape -/

/-- The column is not empty and its values are structs with these keys. -/
structure OfKeys (ks : List String) (column : List Json) : Prop where
  nonempty : column ≠ []
  nodup : ks.Nodup
  struct : ∀ x ∈ column, ∃ fields, x = .obj fields ∧ fields.map Prod.fst = ks

theorem OfKeys.keys_eq {ks : List String} (h : OfKeys ks column) :
    keys column = ks := by
  obtain ⟨hne, hnd, hstruct⟩ := h
  induction column with
  | nil => exact absurd rfl hne
  | cons x column ih =>
      obtain ⟨fields, rfl, hfields⟩ := hstruct x List.mem_cons_self
      have hkeys : keys (.obj fields :: column) =
          (ks ++ (structs column).flatMap fun fields =>
            fields.map Prod.fst).dedup := by
        rw [← hfields]
        rfl
      rw [hkeys]
      cases column with
      | nil => simpa [structs] using hnd.dedup
      | cons y column =>
          have hrest : keys (y :: column) = ks := by
            apply ih (List.cons_ne_nil _ _)
            intro z hz
            exact hstruct z (List.mem_cons_of_mem _ hz)
          rw [List.dedup_append]
          change ks ∪ keys (y :: column) = ks
          rw [hrest]
          exact List.Subset.union_eq_right (List.Subset.refl ks)

/-- Such a struct comes back with its own keys, in their order. -/
theorem OfKeys.readStruct_eq {ks : List String} (h : OfKeys ks column)
    (hfields : fields.map Prod.fst = ks) :
    readStruct column fields =
      fields.map fun field =>
        (field.1, readBack (child field.1 column) field.2) := by
  subst hfields
  rw [readStruct, h.keys_eq, List.map_map]
  apply List.map_congr_left
  intro field hfield
  have hlookup : Dict.lookupEntries field.1 fields = some field.2 :=
    (Dict.lookupEntries_eq_some_iff h.nodup).mpr hfield
  rw [Function.comp_apply, lookup_readFields, hlookup]
  rfl

/-- If what it holds comes back as it is, so does the struct. -/
theorem OfKeys.readStruct_self {ks : List String} (h : OfKeys ks column)
    (hfields : fields.map Prod.fst = ks)
    (hread : ∀ field ∈ fields,
      readBack (child field.1 column) field.2 = field.2) :
    readStruct column fields = fields := by
  rw [h.readStruct_eq hfields]
  conv_rhs => rw [← List.map_id fields]
  apply List.map_congr_left
  intro field hfield
  rw [hread field hfield]
  rfl

theorem OfKeys.readBack_self {ks : List String} (h : OfKeys ks column)
    (hfields : fields.map Prod.fst = ks)
    (hread : ∀ field ∈ fields,
      readBack (child field.1 column) field.2 = field.2) :
    readBack column (.obj fields) = .obj fields := by
  rw [readBack_obj, h.readStruct_self hfields hread]

end Keys

theorem structs_map_obj (rows : List (List (String × Json))) :
    structs (rows.map .obj) = rows := by
  unfold structs
  rw [List.filterMap_map]
  exact List.filterMap_some

end TTSR.Foundation.Columns
