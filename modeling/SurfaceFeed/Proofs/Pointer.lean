import SurfaceFeed.Proofs.Path

/-!
# Pointers with one more segment

## Slashes and escapes

An escaped segment has no slash, and unescaping gives the segment back.  So the
text of a pointer that is not the root can be continued: a slash and an escaped
segment behind it stand for one more segment of the path.
-/

namespace SurfaceFeed

namespace Pointer

open Text

@[simp] theorem escapeChars_cons (c : Char) (segment : List Char) :
    escapeChars (c :: segment) = escapeChar c ++ escapeChars segment :=
  rfl

theorem unescapeChars?_cons {c : Char} (h : c ≠ '~') (text : List Char) :
    unescapeChars? (c :: text) = (unescapeChars? text).map (c :: ·) := by
  rw [unescapeChars?, if_neg h]
  · intro rest hc
    exact absurd hc h
  · intro rest hc
    exact absurd hc h

theorem unescapeChars?_escapeChars (segment : List Char) :
    unescapeChars? (escapeChars segment) = some segment := by
  induction segment with
  | nil => rfl
  | cons c segment ih =>
      rw [escapeChars_cons, escapeChar]
      by_cases htilde : c = '~'
      · subst htilde
        show (unescapeChars? (escapeChars segment)).map ('~' :: ·) = _
        rw [ih]
        rfl
      · rw [if_neg (mt beq_iff_eq.1 htilde)]
        by_cases hslash : c = '/'
        · subst hslash
          show (unescapeChars? (escapeChars segment)).map ('/' :: ·) = _
          rw [ih]
          rfl
        · rw [if_neg (mt beq_iff_eq.1 hslash), List.singleton_append,
            unescapeChars?_cons htilde, ih]
          rfl

theorem slash_not_mem_escapeChars (segment : List Char) : '/' ∉ escapeChars segment := by
  intro h
  rcases List.mem_flatMap.1 h with ⟨c, _, hc⟩
  rw [escapeChar] at hc
  split at hc
  · revert hc
    decide
  · split at hc
    · revert hc
      decide
    · next hslash =>
        rw [← List.mem_singleton.1 hc] at hslash
        exact hslash rfl

theorem escapeChars_of_plain {segment : List Char} (htilde : '~' ∉ segment)
    (hslash : '/' ∉ segment) : escapeChars segment = segment := by
  induction segment with
  | nil => rfl
  | cons c segment ih =>
      rcases not_or.1 (mt List.mem_cons.2 htilde) with ⟨hc, htilde⟩
      rcases not_or.1 (mt List.mem_cons.2 hslash) with ⟨hc', hslash⟩
      rw [escapeChars_cons, ih htilde hslash, escapeChar,
        if_neg (mt beq_iff_eq.1 (Ne.symm hc)), if_neg (mt beq_iff_eq.1 (Ne.symm hc'))]
      rfl

theorem escapeSegment_toString (n : Nat) : escapeSegment (toString n) = toString n := by
  have htilde : '~' ∉ (toString n).toList := Value.not_mem_toString rfl
  have hslash : '/' ∉ (toString n).toList := Value.not_mem_toString rfl
  rw [escapeSegment, escapeChars_of_plain htilde hslash, String.ofList_toList]

/-! ## Parsing -/

/-- The text is only named in errors, and segments can be unescaped apart from one another. -/
theorem unescapeAll_append {text : String} {parts : List (List Char)} {segments : List String}
    (h : unescapeAll text parts = .ok segments) (other : String) (segment : List Char) :
    unescapeAll other (parts ++ [escapeChars segment]) =
      .ok (segments ++ [String.ofList segment]) := by
  induction parts generalizing segments with
  | nil =>
      cases h
      rw [List.nil_append, unescapeAll, unescapeChars?_escapeChars]
      rfl
  | cons part parts ih =>
      rw [unescapeAll] at h
      rw [List.cons_append, unescapeAll]
      cases hpart : unescapeChars? part with
      | none =>
          rw [hpart] at h
          cases h
      | some first =>
          rw [hpart] at h
          cases hrest : unescapeAll text parts with
          | error e =>
              rw [hrest] at h
              cases h
          | ok rest =>
              rw [hrest] at h
              cases h
              rw [ih hrest]
              rfl

theorem parse_eq {text : String} {rest : List Char} (htext : text.toList = '/' :: rest)
    (hrest : rest ≠ []) :
    parse text = (unescapeAll text (splitSlashes rest)).map Pointer.mk := by
  rw [parse, htext]
  split
  · next h => cases h
  · next h => exact absurd (List.cons.inj h).2 hrest
  · next h =>
      cases h
      rw [if_pos rfl]
      cases unescapeAll text (splitSlashes rest) <;> rfl

theorem exists_of_parse {text : String} {p : Pointer} (h : parse text = .ok p)
    (hroot : p.isRoot = false) :
    exists rest, text.toList = '/' :: rest ∧ rest ≠ [] ∧
      unescapeAll text (splitSlashes rest) = .ok p.segments := by
  have hfull := h
  rw [parse] at hfull
  split at hfull
  · cases hfull
    cases hroot
  · cases hfull
    cases hroot
  · next c rest hlong htext =>
      split at hfull
      · next hslash =>
          subst hslash
          have hrest : rest ≠ [] := hlong rfl
          rw [parse_eq htext hrest] at h
          cases hsegments : unescapeAll text (splitSlashes rest) with
          | error e =>
              rw [hsegments] at h
              cases h
          | ok segments =>
              rw [hsegments] at h
              cases h
              exact ⟨rest, htext, hrest, hsegments⟩
      · cases hfull

theorem parse_push {text : String} {p : Pointer} (h : parse text = .ok p)
    (hroot : p.isRoot = false) (segment : String) :
    parse (text ++ "/" ++ escapeSegment segment) = .ok (p.push segment) := by
  rcases exists_of_parse h hroot with ⟨rest, htext, hrest, hsegments⟩
  have hlonger : (text ++ "/" ++ escapeSegment segment).toList =
      '/' :: (rest ++ '/' :: escapeChars segment.toList) := by
    rw [String.toList_append, String.toList_append, htext, escapeSegment, String.toList_ofList]
    simp
  rw [parse_eq hlonger (by simp), splitSlashes_append,
    splitSlashes_of_not_mem (slash_not_mem_escapeChars _), unescapeAll_append hsegments,
    String.ofList_toList]
  rfl

end Pointer

namespace Value

theorem get_push {root value : Value} {text : String} {p : Pointer}
    (hparse : Pointer.parse text = .ok p) (hroot : p.isRoot = false)
    (hget : root.get text = some value) (segment : String) :
    root.get (text ++ "/" ++ Pointer.escapeSegment segment) = value.child? segment := by
  rw [get, hparse] at hget
  have hat : root.getAt p.segments = some value := hget
  rw [get, Pointer.parse_push hparse hroot]
  show root.getAt (p.segments ++ [segment]) = _
  rw [getAt_append_of_some hat, getAt_cons]
  cases value.child? segment with
  | none => rfl
  | some child => exact getAt_nil child

end Value
end SurfaceFeed
