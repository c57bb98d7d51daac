import MessageSchema.Text.Pieces

/-! # Package paths

A package stands at a path of segments that leads to it from the root; the root stands at the
empty path.  A package text is read as a path by cutting it at dots, and all empty segments at the
front are ignored, so that no path read from a text begins with an empty segment
(`PackagePath.head?_ofText`).  The paths read from texts are *proper*, and proper paths are known by
their names (`PackagePath.Proper.eq_of_name_eq`). -/

namespace MessageSchema

/-- The segments that lead from the root to a package. -/
abbrev PackagePath := List String

namespace PackagePath

/-- The full name of the package at a path; the root has the empty name. -/
def name (path : PackagePath) : String := Text.joined '.' path

/-- The path under which a package text registers its messages. -/
def ofText (text : String) : PackagePath :=
  (Text.pieces '.' text).dropWhile (· = "")

/-- A path to which a package text can lead: its first segment is not empty, and no segment holds a
dot. -/
def Proper (path : PackagePath) : Prop :=
  path.head? ≠ some "" ∧ ∀ segment ∈ path, '.' ∉ segment.toList

/-- The paths met on the way from `path` outwards: `path`, the package around it, and so on up to
the root. -/
def outward : PackagePath → List PackagePath
  | [] => [[]]
  | segment :: rest => (outward rest).map (segment :: ·) ++ [[]]

theorem head?_ofText (text : String) : (ofText text).head? ≠ some "" := by
  intro h
  have := List.head?_dropWhile_not (· = "") (Text.pieces '.' text)
  rw [show (Text.pieces '.' text).dropWhile (· = "") = ofText text from rfl, h] at this
  simp at this

theorem proper_ofText (text : String) : Proper (ofText text) :=
  ⟨head?_ofText text, fun _ h =>
    Text.not_mem_of_mem_pieces ((List.dropWhile_sublist _).subset h)⟩

/-! ### Names -/

theorem name_concat (path : PackagePath) (segment : String) :
    name (path ++ [segment]) = if path = [] then segment else name path ++ "." ++ segment := by
  by_cases h : path = []
  · subst h
    exact Text.joined_singleton ..
  · rw [if_neg h]
    exact Text.joined_concat segment h

namespace Proper

variable {path q : PackagePath}

theorem of_prefix (h : Proper path) (hq : q <+: path) : Proper q := by
  obtain ⟨rest, rfl⟩ := hq
  refine ⟨?_, fun segment hs => h.2 segment (List.mem_append_left _ hs)⟩
  cases q with
  | nil => simp
  | cons first q => exact h.1

/-- The name of a package other than the root is cut into the segments of its path. -/
theorem pieces_name (h : Proper path) (hne : path ≠ []) : Text.pieces '.' (name path) = path :=
  Text.pieces_joined hne h.2

theorem name_eq_empty_iff (h : Proper path) : name path = "" ↔ path = [] := by
  constructor
  · intro hn
    by_cases hne : path = []
    · exact hne
    · have hp := h.pieces_name hne
      rw [hn] at hp
      exact absurd (congrArg List.head? hp.symm) h.1
  · rintro rfl
    rfl

theorem eq_of_name_eq (h : Proper path) (hq : Proper q) (hn : name path = name q) : path = q := by
  by_cases hne : path = []
  · subst hne
    exact (hq.name_eq_empty_iff.mp hn.symm).symm
  · have hne' : q ≠ [] := by
      rintro rfl
      exact hne (h.name_eq_empty_iff.mp hn)
    rw [← h.pieces_name hne, ← hq.pieces_name hne', hn]

end Proper

/-! ### Paths outwards -/

/-- The way outwards begins at the package itself and goes on from the package around it. -/
theorem outward_concat (path : PackagePath) (segment : String) :
    outward (path ++ [segment]) = (path ++ [segment]) :: outward path := by
  induction path with
  | nil => rfl
  | cons first rest ih => simp [outward, ih]

end PackagePath

end MessageSchema
