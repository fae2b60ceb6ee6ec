import Mathlib.Data.List.DropRight
import Mathlib.Data.List.Basic

/-!
# Paths and working directories

What a path names, for a process in a given working directory. A place is the
list of names from the root of the file system on. An absolute path starts at
the root, any other one in the working directory; `.` stays where it is and
`..` goes up, at the root nowhere. Symbolic links are not treated.

`resolve_eq_iff` says when a path names the same place from two directories:
it is absolute, or the directories agree as far as the path does not climb out
of them.
-/

namespace TTSR.Foundation.Paths

/-- The names between the slashes. -/
def components (path : String) : List String :=
  (path.toList.splitOn '/').map String.ofList

def IsAbsolute (path : String) : Prop := path.toList.head? = some '/'

instance (path : String) : Decidable (IsAbsolute path) :=
  inferInstanceAs (Decidable (_ = _))

/-- Go from a place to what a name means there. -/
def walk (place : List String) (name : String) : List String :=
  if name = "" ∨ name = "." then place
  else if name = ".." then place.dropLast
  else place ++ [name]

/-- The place that `path` names from `cwd`. -/
def resolve (cwd : List String) (path : String) : List String :=
  (components path).foldl walk (if IsAbsolute path then [] else cwd)

example : resolve ["a", "b"] "../c/./d" = ["a", "c", "d"] := by decide

/-! ## Paths below a path -/

theorem components_append (p q : String) :
    components (p ++ "/" ++ q) = components p ++ components q := by
  have hlist : (p ++ "/" ++ q).toList = p.toList ++ '/' :: q.toList := by
    rw [String.toList_append, String.toList_append, List.append_assoc]
    rfl
  rw [components, hlist, List.splitOn_append_cons_self, List.map_append]
  rfl

theorem isAbsolute_append {p : String} (hp : p ≠ "") (q : String) :
    IsAbsolute (p ++ q) ↔ IsAbsolute p := by
  have hne : p.toList ≠ [] := fun h => hp (String.toList_eq_nil_iff.mp h)
  rw [IsAbsolute, IsAbsolute, String.toList_append, List.head?_append_of_ne_nil _ hne]

/-- A path below `p` is walked from where `p` is. -/
theorem resolve_append (cwd : List String) {p : String} (hp : p ≠ "")
    (q : String) :
    resolve cwd (p ++ "/" ++ q) = (components q).foldl walk (resolve cwd p) := by
  have habs : IsAbsolute (p ++ "/" ++ q) ↔ IsAbsolute p := by
    rw [String.append_assoc]
    exact isAbsolute_append hp _
  rw [resolve, components_append, List.foldl_append, resolve]
  simp only [habs]

/-- A name that goes down. -/
def Plain (name : String) : Prop := name ≠ "" ∧ name ≠ "." ∧ name ≠ ".."

theorem foldl_walk_plain : ∀ {names : List String} (place : List String),
    (∀ name ∈ names, Plain name) → names.foldl walk place = place ++ names
  | [], place, _ => (List.append_nil place).symm
  | name :: names, place, h => by
      obtain ⟨hempty, hdot, hdotdot⟩ := h name List.mem_cons_self
      have hwalk : walk place name = place ++ [name] := by
        rw [walk, if_neg (not_or.mpr ⟨hempty, hdot⟩), if_neg hdotdot]
      rw [List.foldl_cons, hwalk,
        foldl_walk_plain _ fun n hn => h n (List.mem_cons_of_mem name hn),
        List.append_assoc]
      rfl

/-- Below the same path, plain names lead to the same place only from the same
place. -/
theorem resolve_below_iff {cwd cwd' : List String} {p q : String} (hp : p ≠ "")
    (hq : ∀ name ∈ components q, Plain name) :
    resolve cwd (p ++ "/" ++ q) = resolve cwd' (p ++ "/" ++ q) ↔
      resolve cwd p = resolve cwd' p := by
  rw [resolve_append cwd hp, resolve_append cwd' hp, foldl_walk_plain _ hq,
    foldl_walk_plain _ hq, List.append_left_inj]

/-! ## Two working directories -/

/-- How far a walk climbs out of where it starts, and what it then goes
down. -/
def climb : ℕ × List String → String → ℕ × List String
  | (ups, downs), name =>
      if name = "" ∨ name = "." then (ups, downs)
      else if name = ".." then
        if downs = [] then (ups + 1, []) else (ups, downs.dropLast)
      else (ups, downs ++ [name])

/-- The levels a path climbs above the working directory. -/
def ups (path : String) : ℕ := ((components path).foldl climb (0, [])).1

theorem walk_climb (place : List String) (name : String) (c : ℕ × List String) :
    walk (place.rdrop c.1 ++ c.2) name =
      place.rdrop (climb c name).1 ++ (climb c name).2 := by
  obtain ⟨n, downs⟩ := c
  rw [walk, climb]
  split_ifs with hstay hup hdowns
  · rfl
  · subst hdowns
    have hlength : min (min (place.length - n) place.length - 1)
        (place.length - n) = place.length - (n + 1) := by omega
    rw [List.append_nil, List.append_nil, List.rdrop, List.rdrop,
      List.dropLast_eq_take, List.length_take, List.take_take, hlength]
  · rw [List.dropLast_append_of_ne_nil hdowns]
  · rw [List.append_assoc]

theorem foldl_walk_climb (place : List String) (names : List String) :
    ∀ c : ℕ × List String, names.foldl walk (place.rdrop c.1 ++ c.2) =
      place.rdrop (names.foldl climb c).1 ++ (names.foldl climb c).2 := by
  induction names with
  | nil =>
      intro c
      rfl
  | cons name names ih =>
      intro c
      rw [List.foldl_cons, List.foldl_cons, walk_climb, ih]

/-- **The same place from two directories.** -/
theorem resolve_eq_iff {cwd cwd' : List String} {path : String} :
    resolve cwd path = resolve cwd' path ↔
      IsAbsolute path ∨ cwd.rdrop (ups path) = cwd'.rdrop (ups path) := by
  rw [resolve, resolve]
  by_cases habs : IsAbsolute path
  · simp [habs]
  · have hfold : ∀ place : List String, (components path).foldl walk place =
        place.rdrop (ups path) ++ ((components path).foldl climb (0, [])).2 := by
      intro place
      have h := foldl_walk_climb place (components path) (0, [])
      rwa [List.rdrop_zero, List.append_nil] at h
    rw [if_neg habs, if_neg habs, hfold, hfold, List.append_left_inj]
    exact (or_iff_right habs).symm

end TTSR.Foundation.Paths
