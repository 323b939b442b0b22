/-!
# Slashes

## The parts of a path

A slash stands between two parts of a path and belongs to neither, so a path
with `n` slashes has `n + 1` parts, of which some may be empty.
-/

namespace SurfaceFeed
namespace Text

/-- The parts of a text between its slashes. -/
def splitSlashes : List Char -> List (List Char)
  | [] => [[]]
  | c :: rest =>
      if c = '/' then [] :: splitSlashes rest
      else
        match splitSlashes rest with
        | [] => [[c]]
        | part :: parts => (c :: part) :: parts

theorem length_splitSlashes (text : List Char) :
    (splitSlashes text).length = text.count '/' + 1 := by
  induction text with
  | nil => rfl
  | cons c rest ih =>
      by_cases h : c = '/'
      · simp [splitSlashes, h, ih]
      · cases hp : splitSlashes rest with
        | nil =>
            rw [hp] at ih
            simp at ih
        | cons part parts =>
            rw [hp] at ih
            simpa [splitSlashes, h, hp, List.count_cons] using ih

/-- A slash separates the parts before it from those after it. -/
@[simp] theorem splitSlashes_append (front back : List Char) :
    splitSlashes (front ++ '/' :: back) = splitSlashes front ++ splitSlashes back := by
  induction front with
  | nil => rfl
  | cons c front ih =>
      rw [List.cons_append, splitSlashes, splitSlashes, ih]
      split
      · rfl
      · cases hfront : splitSlashes front with
        | nil =>
            have hlength := length_splitSlashes front
            rw [hfront] at hlength
            cases hlength
        | cons part parts => rfl

theorem splitSlashes_of_not_mem {part : List Char} (h : '/' ∉ part) :
    splitSlashes part = [part] := by
  induction part with
  | nil => rfl
  | cons c part ih =>
      rcases not_or.1 (mt List.mem_cons.2 h) with ⟨hc, hpart⟩
      rw [splitSlashes, if_neg (Ne.symm hc), ih hpart]

end Text
end SurfaceFeed
