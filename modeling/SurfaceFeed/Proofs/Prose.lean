import SurfaceFeed.Proofs.BareDocuments
import SurfaceFeed.Proofs.ChunkEnds
import SurfaceFeed.Proofs.Message.Equality
import SurfaceFeed.Proofs.Truncation

/-!
# Lists after prose

## Prose without brackets

The scanner takes the quotes of prose for quotes of strings.  While they come in
pairs, a list that follows is told object by object.  After an odd one inside
and outside are the other way round: the bracket that opens the list counts as a
byte of a string, nothing is signalled, and the list is not looked at before the
response ends.
-/

namespace SurfaceFeed

namespace Lexical

end Lexical

namespace Scanner

/-- A scan that signals nothing and of which no part ends in a list. -/
def Remains (s : Scanner) (text : Bytes) : Prop :=
  forall t, t <+: text -> exists l held, s.scan t = (⟨l, .outside held⟩, [])

theorem Remains.append {s : Scanner} {a b : Bytes} (ha : s.Remains a)
    (hb : (s.scan a).1.Remains b) : s.Remains (a ++ b) := by
  intro t ht
  rcases prefix_append_cases ht with ⟨hshort, _⟩ | ⟨t', rfl, ht'⟩
  · exact ha t hshort
  · rcases ha a (List.prefix_refl a) with ⟨l, held, hscan⟩
    rw [hscan] at hb
    rw [scan_append_of_eq hscan]
    exact hb t' ht'

/--
No byte of a text opens a list in a state with a property, and every byte leads to a state with
that property again.
-/
def Shuts (P : Lexical -> Prop) (text : Bytes) : Prop :=
  forall l b, P l -> b ∈ text -> (l ≠ .plain ∨ b ≠ 0x5b) ∧ P (l.next b)

theorem step_outside {l : Lexical} {b : UInt8} (h : l ≠ .plain ∨ b ≠ 0x5b) (held : Bytes) :
    exists held', step ⟨l, .outside held⟩ b = (⟨l.next b, .outside held'⟩, none) := by
  cases l with
  | plain =>
      have hb : b ≠ 0x5b := h.resolve_left (fun hne => hne rfl)
      exact ⟨b :: held, by simp [step, Place.hold, Place.turn, hb]⟩
  | quoted => exact ⟨_, rfl⟩
  | escaped => exact ⟨_, rfl⟩

section Shuts

variable {P : Lexical -> Prop} {text : Bytes} {l : Lexical}

theorem Shuts.scan (h : Shuts P text) (hl : P l) (held : Bytes) :
    exists l' held', P l' ∧ scan ⟨l, .outside held⟩ text = (⟨l', .outside held'⟩, []) := by
  induction text generalizing l held with
  | nil => exact ⟨l, held, hl, rfl⟩
  | cons b text ih =>
      have hrest : Shuts P text := fun l x hl hx => h l x hl (List.mem_cons_of_mem b hx)
      rcases h l b hl List.mem_cons_self with ⟨hshut, hnext⟩
      rcases step_outside hshut held with ⟨held', hstep⟩
      rcases ih hrest hnext held' with ⟨l', held'', hl', hscan⟩
      refine ⟨l', held'', hl', ?_⟩
      rw [scan_cons, hstep, hscan]
      rfl

end Shuts

section Chunks

variable {chunks : List Bytes}

theorem fromLastOpening_cons {rest : Bytes} (h : 0x5b ∉ rest) :
    fromLastOpening (0x5b :: rest) = 0x5b :: rest := by
  have hreverse : 0x5b ∉ rest.reverse := fun hmem => h (List.mem_reverse.1 hmem)
  rw [fromLastOpening, if_pos List.mem_cons_self, List.reverse_cons,
    List.takeWhile_append_of_pos (Response.ne_of_not_mem hreverse)]
  simp

end Chunks

end Scanner

/-! ## What the list brings then -/

namespace Json

end Json

namespace Response

open Text

end Response

namespace Assembler

/-! ## Messages that come again -/

section Prose

variable {settings : Settings} {prose text : Bytes} {items : List Json} {ms : List Message}
  {chunks : List Bytes}

end Prose

end Assembler

end SurfaceFeed
