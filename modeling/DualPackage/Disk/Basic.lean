import DualPackage.Path.Basic
import DualPackage.Disk.Fault
/-!
# Disks

A disk is a finite map from locations to entries: directories, files with
their bytes, and symbolic links with their target text. A location is the
list of names on the way from the root directory, which is always there;
it is where a directory *is*, so two locations are equal iff they are the
same directory, however a path spells them. The entries are kept in the
order of their locations, in which a directory comes right before what it
holds and the names in a directory ascend.

The lemmas give the map its laws: `set` is read back by `get?`, at the
location set and at all others.
-/

namespace DualPackage

/-- The names on the way from the root directory. -/
abbrev Location := List String

/-- What can stand at a location. -/
inductive Entry where
  | dir
  | file (content : ByteArray)
  | link (target : String)

instance : DecidableEq Entry
  | .dir, .dir => .isTrue rfl
  | .file a, .file b =>
    @decidable_of_decidable_of_iff (a = b) _ (ByteArray.instDecidableEq a b) (by simp)
  | .link a, .link b => @decidable_of_decidable_of_iff (a = b) _ (instDecidableEqString a b) (by simp)
  | .dir, .file _ | .dir, .link _ | .file _, .dir | .file _, .link _ | .link _, .dir
  | .link _, .file _ => .isFalse (by simp)

/-- The entries of a file system, and the directory relative paths are read
from. -/
structure Disk where
  entries : List (Location × Entry)
  cwd : Location

namespace Location

/-- Whether one location comes before another: a directory before what it
holds, and names in ascending order. Ascending by characters is ascending
by bytes. -/
def before : Location → Location → Bool
  | [], [] => false
  | [], _ :: _ => true
  | _ :: _, [] => false
  | a :: as, b :: bs => a < b || (a == b && before as bs)

/-- The name under which `loc` stands in the directory `dir`, if it stands
right in it. -/
def nameIn? : Location → Location → Option String
  | [], [name] => some name
  | a :: dir, b :: loc => if a = b then nameIn? dir loc else none
  | _, _ => none

theorem nameIn?_eq_some_iff {dir loc : Location} {name : String} :
    nameIn? dir loc = some name ↔ loc = dir ++ [name] := by
  induction dir generalizing loc with
  | nil => rcases loc with - | ⟨b, - | ⟨c, loc⟩⟩ <;> simp [nameIn?]
  | cons a dir ih =>
    rcases loc with - | ⟨b, loc⟩
    · simp [nameIn?]
    · by_cases h : a = b
      · simp [nameIn?, h, ih]
      · simp [nameIn?, h, Ne.symm h]

/-- The location as an absolute path. -/
def path (loc : Location) : Path :=
  ⟨"/" ++ "/".intercalate loc⟩

end Location

namespace Disk

/-- The entry that stands under a location in a list of entries. -/
def find (loc : Location) : List (Location × Entry) → Option Entry
  | [] => none
  | (l, e) :: rest => if l = loc then some e else find loc rest

/-- A list of entries with `entry` at `loc`. -/
def place (loc : Location) (entry : Entry) : List (Location × Entry) → List (Location × Entry)
  | [] => [(loc, entry)]
  | (l, e) :: rest =>
    if l = loc then (loc, entry) :: rest
    else if loc.before l then (loc, entry) :: (l, e) :: rest
    else (l, e) :: place loc entry rest

theorem find_place_self (loc : Location) (entry : Entry) (entries : List (Location × Entry)) :
    find loc (place loc entry entries) = some entry := by
  induction entries with
  | nil => simp [place, find]
  | cons head rest ih =>
    obtain ⟨l, e⟩ := head
    by_cases h : l = loc
    · simp [place, find, h]
    · by_cases hb : Location.before loc l <;> simp [place, find, h, hb, ih]

theorem find_place_ne {loc other : Location} (h : other ≠ loc) (entry : Entry)
    (entries : List (Location × Entry)) :
    find other (place loc entry entries) = find other entries := by
  induction entries with
  | nil => simp [place, find, h.symm]
  | cons head rest ih =>
    obtain ⟨l, e⟩ := head
    by_cases hl : l = loc
    · simp [place, find, hl, h.symm]
    · by_cases hb : Location.before loc l
      · simp [place, find, hl, hb, h.symm]
      · simp [place, find, hl, hb, ih]

variable (d : Disk)

/-- What stands at a location. The root directory always does. -/
def get? (loc : Location) : Option Entry :=
  if loc = [] then some .dir else find loc d.entries

/-- The disk with `entry` at a location below the root. -/
def set (loc : Location) (entry : Entry) : Disk :=
  { d with entries := place loc entry d.entries }

/-- The disk without a location and all that lies below it. -/
def erase (loc : Location) : Disk :=
  { d with entries := d.entries.filter fun e => !loc.isPrefixOf e.1 }

/-- The names in a directory and what stands under them, in ascending
order. -/
def children (dir : Location) : List (String × Entry) :=
  d.entries.filterMap fun (loc, e) => (Location.nameIn? dir loc).map fun name => (name, e)

@[simp] theorem get?_root : d.get? [] = some .dir := rfl

@[simp] theorem cwd_set (loc : Location) (entry : Entry) : (d.set loc entry).cwd = d.cwd := rfl

variable {d}

theorem get?_set_self {loc : Location} (h : loc ≠ []) (entry : Entry) :
    (d.set loc entry).get? loc = some entry := by
  simp [get?, set, h, find_place_self]

theorem get?_set_ne {loc other : Location} (h : other ≠ loc) (entry : Entry) :
    (d.set loc entry).get? other = d.get? other := by
  by_cases ho : other = []
  · simp [ho]
  · simp [get?, set, ho, find_place_ne h]

/-- A disk is well formed if every entry stands in a directory, under a name
that a path can spell, and the entries are in strictly ascending order. -/
structure WellFormed (d : Disk) : Prop where
  ordered : d.entries.Pairwise fun a b => a.1.before b.1
  parent_dir : ∀ loc name e, d.get? (loc ++ [name]) = some e → d.get? loc = some .dir
  proper_name : ∀ loc name e, d.get? (loc ++ [name]) = some e →
    name ≠ "" ∧ name ≠ "." ∧ name ≠ ".." ∧ ∀ c ∈ name.toList, c ≠ '/'
  not_root : ∀ e ∈ d.entries, e.1 ≠ []
  cwd_dir : d.get? d.cwd = some .dir

/-- A disk without symbolic links. -/
def LinkFree (d : Disk) : Prop :=
  ∀ loc target, d.get? loc ≠ some (.link target)

end Disk

end DualPackage
