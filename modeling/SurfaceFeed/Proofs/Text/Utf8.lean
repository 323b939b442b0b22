import SurfaceFeed.Text.Utf8

/-!
# Characters and their bytes

## One character

What the first byte announces decides which bytes complete a character.  The
bytes that complete one are its encoding, and every character is completed by
its encoding.
-/

namespace SurfaceFeed
namespace Text

theorem toNat_and_low (b : UInt8) :
    (b &&& 0x3f).toNat = b.toNat % 64 ∧ (b &&& 0x1f).toNat = b.toNat % 32 ∧
      (b &&& 0x0f).toNat = b.toNat % 16 ∧ (b &&& 0x07).toNat = b.toNat % 8 := by
  simp only [UInt8.toNat_and]
  exact ⟨Nat.and_two_pow_sub_one_eq_mod _ 6, Nat.and_two_pow_sub_one_eq_mod _ 5,
    Nat.and_two_pow_sub_one_eq_mod _ 4, Nat.and_two_pow_sub_one_eq_mod _ 3⟩

/-- What a byte between characters announces. -/
inductive Announces : UInt8 -> Piece ⊕ Cursor -> Prop where
  | ascii {b : UInt8} : b.toNat < 0x80 -> Announces b (.inl (.char (Char.ofNat b.toNat)))
  | two {b : UInt8} : 0xc2 ≤ b.toNat -> b.toNat ≤ 0xdf ->
      Announces b (.inr (.inside [b] (b.toNat % 32) 1 0x80 0xbf))
  | three {b low high : UInt8} : 0xe0 ≤ b.toNat -> b.toNat ≤ 0xef ->
      low.toNat = (if b.toNat = 0xe0 then 0xa0 else 0x80) ->
      high.toNat = (if b.toNat = 0xed then 0x9f else 0xbf) ->
      Announces b (.inr (.inside [b] (b.toNat % 16) 2 low high))
  | four {b low high : UInt8} : 0xf0 ≤ b.toNat -> b.toNat ≤ 0xf4 ->
      low.toNat = (if b.toNat = 0xf0 then 0x90 else 0x80) ->
      high.toNat = (if b.toNat = 0xf4 then 0x8f else 0xbf) ->
      Announces b (.inr (.inside [b] (b.toNat % 8) 3 low high))
  | nothing {b : UInt8} : 0x80 ≤ b.toNat -> b.toNat < 0xc2 ∨ 0xf4 < b.toNat ->
      Announces b (.inl (.broken [b] false))

theorem announces_start (b : UInt8) : Announces b (Cursor.start b) := by
  rcases toNat_and_low b with ⟨_, h5, h4, h3⟩
  unfold Cursor.start
  simp only [h5, h4, h3, Bool.and_eq_true, decide_eq_true_eq, beq_iff_eq, ← UInt8.toNat_inj,
    UInt8.lt_iff_toNat_lt, UInt8.le_iff_toNat_le, UInt8.reduceToNat]
  split
  · next h => exact .ascii h
  split
  · next h => exact .two h.1 h.2
  split
  · next h => exact .three (by omega) (by omega) (by simp [h]) (by simp [h])
  split
  · next h => exact .three (by omega) (by omega) (by simp [h]) (by simp [h])
  split
  · next hzero hlast h =>
      refine .three (by omega) (by omega) ?_ ?_
      · rw [if_neg hzero]
        rfl
      · rw [if_neg hlast]
        rfl
  split
  · next h => exact .four (by omega) (by omega) (by simp [h]) (by simp [h])
  split
  · next hzero h =>
      refine .four (by omega) (by omega) ?_ ?_
      · rw [if_neg hzero]
        rfl
      · rw [if_neg (by omega)]
        rfl
  split
  · next h => exact .four (by omega) (by omega) (by simp [h]) (by simp [h])
  · exact .nothing (by omega) (by omega)

/-! ## Completing a character -/

/-- The bytes that complete a character, and the number of the character. -/
inductive Completes : Cursor -> Bytes -> Nat -> Prop where
  | last {seen : Bytes} {code : Nat} {low high b : UInt8} :
      low.toNat ≤ b.toNat -> b.toNat ≤ high.toNat ->
      Completes (.inside seen code 1 low high) [b] (code * 64 + b.toNat % 64)
  | more {seen rest : Bytes} {code need n : Nat} {low high b : UInt8} :
      low.toNat ≤ b.toNat -> b.toNat ≤ high.toNat ->
      Completes (.inside (b :: seen) (code * 64 + b.toNat % 64) (need + 1) 0x80 0xbf) rest n ->
      Completes (.inside seen code (need + 2) low high) (b :: rest) n

theorem advance_inside {seen : Bytes} {code need : Nat} {low high b : UInt8}
    (hlow : low.toNat ≤ b.toNat) (hhigh : b.toNat ≤ high.toNat) :
    Cursor.advance (.inside seen code need low high) b =
      if need ≤ 1 then ([.char (Char.ofNat (code * 64 + b.toNat % 64))], .between)
      else ([], .inside (b :: seen) (code * 64 + b.toNat % 64) (need - 1) 0x80 0xbf) := by
  have hbounds : (low ≤ b && b ≤ high) = true := by
    simp [UInt8.le_iff_toNat_le, hlow, hhigh]
  rw [Cursor.advance, if_pos hbounds, (toNat_and_low b).1]

@[simp] theorem pieces_inside_cons {seen : Bytes} {code need : Nat} {low high b : UInt8}
    (rest : Bytes) :
    (Cursor.inside seen code need low high).pieces (b :: rest) =
      (Cursor.advance (.inside seen code need low high) b).1 ++
        (Cursor.advance (.inside seen code need low high) b).2.pieces rest :=
  rfl

theorem Completes.pieces_append {cursor : Cursor} {tail : Bytes} {n : Nat}
    (h : Completes cursor tail n) (rest : Bytes) :
    cursor.pieces (tail ++ rest) = .char (Char.ofNat n) :: Cursor.between.pieces rest := by
  induction h with
  | last hlow hhigh =>
      rw [List.cons_append, pieces_inside_cons, advance_inside hlow hhigh, if_pos (Nat.le_refl 1)]
      rfl
  | more hlow hhigh _ ih =>
      rw [List.cons_append, pieces_inside_cons, advance_inside hlow hhigh,
        if_neg (by omega)]
      exact ih

theorem Completes.exists_pieces_eq {cursor : Cursor} {tail : Bytes} {n : Nat}
    (h : Completes cursor tail n) {x y : Bytes} (htail : tail = x ++ y) (hy : y ≠ []) :
    exists run, cursor.pieces x = [.broken run true] := by
  induction h generalizing x with
  | @last seen code low high b _ _ =>
      cases x with
      | nil => exact ⟨seen.reverse, rfl⟩
      | cons c x =>
          have hnone : x ++ y = [] := (List.cons.inj htail).2.symm
          exact absurd (List.append_eq_nil_iff.1 hnone).2 hy
  | @more seen rest code need n low high b hlow hhigh _ ih =>
      cases x with
      | nil => exact ⟨seen.reverse, rfl⟩
      | cons c x =>
          rcases List.cons.inj htail with ⟨rfl, hrest⟩
          rcases ih hrest with ⟨run, hrun⟩
          refine ⟨run, ?_⟩
          rw [pieces_inside_cons, advance_inside hlow hhigh, if_neg (by omega)]
          exact hrun

def isContinuation (b : UInt8) : Prop :=
  0x80 ≤ b.toNat ∧ b.toNat ≤ 0xbf

/-- The bytes that the reader takes for the character `n`. -/
inductive Spells : Nat -> Bytes -> Prop where
  | single {b : UInt8} : b.toNat < 0x80 -> Spells b.toNat [b]
  | several {b : UInt8} {cursor : Cursor} {tail : Bytes} {n : Nat} :
      Cursor.start b = .inr cursor -> Completes cursor tail n -> Spells n (b :: tail)

/-! ## Encoding -/

theorem Announces.eq_start {b : UInt8} {r : Piece ⊕ Cursor} (h : Announces b r) :
    Cursor.start b = r := by
  have hstart := announces_start b
  generalize Cursor.start b = r' at hstart
  cases h with
  | ascii hb =>
      cases hstart with
      | ascii _ => rfl
      | two _ _ => omega
      | three _ _ _ _ => omega
      | four _ _ _ _ => omega
      | nothing _ _ => omega
  | two hlow hhigh =>
      cases hstart with
      | ascii _ => omega
      | two _ _ => rfl
      | three _ _ _ _ => omega
      | four _ _ _ _ => omega
      | nothing _ _ => omega
  | three hlow hhigh hl hh =>
      cases hstart with
      | ascii _ => omega
      | two _ _ => omega
      | three _ _ hl' hh' =>
          rw [UInt8.toNat_inj.1 (hl.trans hl'.symm), UInt8.toNat_inj.1 (hh.trans hh'.symm)]
      | four _ _ _ _ => omega
      | nothing _ _ => omega
  | four hlow hhigh hl hh =>
      cases hstart with
      | ascii _ => omega
      | two _ _ => omega
      | three _ _ _ _ => omega
      | four _ _ hl' hh' =>
          rw [UInt8.toNat_inj.1 (hl.trans hl'.symm), UInt8.toNat_inj.1 (hh.trans hh'.symm)]
      | nothing _ _ => omega
  | nothing hb hout =>
      cases hstart with
      | ascii _ => omega
      | two _ _ => omega
      | three _ _ _ _ => omega
      | four _ _ _ _ => omega
      | nothing _ _ => rfl

section Spells

variable {b₀ b₁ b₂ b₃ : UInt8} {n : Nat}

theorem spells_two (hlow : 0xc2 ≤ b₀.toNat) (hhigh : b₀.toNat ≤ 0xdf)
    (h₁ : isContinuation b₁) (hn : n = b₀.toNat % 32 * 64 + b₁.toNat % 64) :
    Spells n [b₀, b₁] := by
  rw [hn]
  exact .several (Announces.two hlow hhigh).eq_start (.last h₁.1 h₁.2)

theorem spells_three (hlow : 0xe0 ≤ b₀.toNat) (hhigh : b₀.toNat ≤ 0xef)
    (h₁ : isContinuation b₁) (h₂ : isContinuation b₂)
    (hshort : b₀.toNat = 0xe0 -> 0xa0 ≤ b₁.toNat)
    (hsurrogate : b₀.toNat = 0xed -> b₁.toNat ≤ 0x9f)
    (hn : n = (b₀.toNat % 16 * 64 + b₁.toNat % 64) * 64 + b₂.toNat % 64) :
    Spells n [b₀, b₁, b₂] := by
  rcases h₁ with ⟨hlow₁, hhigh₁⟩
  rw [hn]
  by_cases hzero : b₀.toNat = 0xe0
  · have hstart := @Announces.three b₀ 0xa0 0xbf hlow hhigh (by simp [hzero]) (by simp [hzero])
    exact .several hstart.eq_start (.more (hshort hzero) hhigh₁ (.last h₂.1 h₂.2))
  · by_cases hlast : b₀.toNat = 0xed
    · have hstart := @Announces.three b₀ 0x80 0x9f hlow hhigh (by simp [hlast]) (by simp [hlast])
      exact .several hstart.eq_start (.more hlow₁ (hsurrogate hlast) (.last h₂.1 h₂.2))
    · have hstart := @Announces.three b₀ 0x80 0xbf hlow hhigh (by simp [hzero]) (by simp [hlast])
      exact .several hstart.eq_start (.more hlow₁ hhigh₁ (.last h₂.1 h₂.2))

theorem spells_four (hlow : 0xf0 ≤ b₀.toNat) (hhigh : b₀.toNat ≤ 0xf4)
    (h₁ : isContinuation b₁) (h₂ : isContinuation b₂) (h₃ : isContinuation b₃)
    (hshort : b₀.toNat = 0xf0 -> 0x90 ≤ b₁.toNat)
    (hlarge : b₀.toNat = 0xf4 -> b₁.toNat ≤ 0x8f)
    (hn : n = ((b₀.toNat % 8 * 64 + b₁.toNat % 64) * 64 + b₂.toNat % 64) * 64 +
      b₃.toNat % 64) :
    Spells n [b₀, b₁, b₂, b₃] := by
  rcases h₁ with ⟨hlow₁, hhigh₁⟩
  rw [hn]
  have hrest : forall seen code, Completes (.inside seen code 2 0x80 0xbf) [b₂, b₃]
      ((code * 64 + b₂.toNat % 64) * 64 + b₃.toNat % 64) := fun _ _ =>
    .more h₂.1 h₂.2 (.last h₃.1 h₃.2)
  by_cases hzero : b₀.toNat = 0xf0
  · have hstart := @Announces.four b₀ 0x90 0xbf hlow hhigh (by simp [hzero]) (by simp [hzero])
    exact .several hstart.eq_start (.more (hshort hzero) hhigh₁ (hrest _ _))
  · by_cases hlast : b₀.toNat = 0xf4
    · have hstart := @Announces.four b₀ 0x80 0x8f hlow hhigh (by simp [hlast]) (by simp [hlast])
      exact .several hstart.eq_start (.more hlow₁ (hlarge hlast) (hrest _ _))
    · have hstart := @Announces.four b₀ 0x80 0xbf hlow hhigh (by simp [hzero]) (by simp [hlast])
      exact .several hstart.eq_start (.more hlow₁ hhigh₁ (hrest _ _))

end Spells

theorem toNat_ofNat_of_lt {n : Nat} (h : n < 256) : (UInt8.ofNat n).toNat = n := by
  simpa using h

/-- The encoding of a character is what the reader takes for it. -/
theorem spells_encodeChar (c : Char) : Spells c.toNat (String.utf8EncodeChar c) := by
  have hvalid : c.toNat < 0xd800 ∨ 0xdfff < c.toNat ∧ c.toNat < 0x110000 := c.valid
  have hval : c.val.toNat = c.toNat := rfl
  unfold String.utf8EncodeChar
  simp only [hval]
  generalize c.toNat = v at hvalid
  split
  · have h₀ := @toNat_ofNat_of_lt v (by omega)
    have hsingle := @Spells.single (UInt8.ofNat v) (by omega)
    rw [h₀] at hsingle
    exact hsingle
  split
  · have h₀ := @toNat_ofNat_of_lt (v / 64 % 32 + 0xc0) (by omega)
    have h₁ := @toNat_ofNat_of_lt (v % 64 + 0x80) (by omega)
    exact spells_two (by omega) (by omega) ⟨by omega, by omega⟩ (by omega)
  split
  · have h₀ := @toNat_ofNat_of_lt (v / 4096 % 16 + 0xe0) (by omega)
    have h₁ := @toNat_ofNat_of_lt (v / 64 % 64 + 0x80) (by omega)
    have h₂ := @toNat_ofNat_of_lt (v % 64 + 0x80) (by omega)
    exact spells_three (by omega) (by omega) ⟨by omega, by omega⟩ ⟨by omega, by omega⟩
      (by omega) (by omega) (by omega)
  · have h₀ := @toNat_ofNat_of_lt (v / 262144 % 8 + 0xf0) (by omega)
    have h₁ := @toNat_ofNat_of_lt (v / 4096 % 64 + 0x80) (by omega)
    have h₂ := @toNat_ofNat_of_lt (v / 64 % 64 + 0x80) (by omega)
    have h₃ := @toNat_ofNat_of_lt (v % 64 + 0x80) (by omega)
    exact spells_four (by omega) (by omega) ⟨by omega, by omega⟩ ⟨by omega, by omega⟩
      ⟨by omega, by omega⟩ (by omega) (by omega) (by omega)

/-! ## The bytes of one character -/

@[simp] theorem pieces_cons (b : UInt8) (rest : Bytes) :
    Cursor.between.pieces (b :: rest) =
      (Cursor.begin b).1 ++ (Cursor.begin b).2.pieces rest :=
  rfl

theorem Spells.pieces_append {n : Nat} {s : Bytes} (h : Spells n s) (rest : Bytes) :
    Cursor.between.pieces (s ++ rest) = .char (Char.ofNat n) :: Cursor.between.pieces rest := by
  cases h with
  | single hb =>
      rw [List.cons_append, pieces_cons, Cursor.begin, (Announces.ascii hb).eq_start]
      rfl
  | several hstart hcompletes =>
      rw [List.cons_append, pieces_cons, Cursor.begin, hstart]
      exact hcompletes.pieces_append rest

theorem Completes.isContinuation {cursor : Cursor} {tail : Bytes} {n : Nat}
    (h : Completes cursor tail n)
    (hbounds : forall seen code need low high, cursor = .inside seen code need low high ->
      0x80 ≤ low.toNat ∧ high.toNat ≤ 0xbf) :
    forall b, b ∈ tail -> isContinuation b := by
  induction h with
  | last hlow hhigh =>
      rcases hbounds _ _ _ _ _ rfl with ⟨hleast, hmost⟩
      intro b hb
      rw [List.mem_singleton] at hb
      subst hb
      exact ⟨Nat.le_trans hleast hlow, Nat.le_trans hhigh hmost⟩
  | more hlow hhigh _ ih =>
      rcases hbounds _ _ _ _ _ rfl with ⟨hleast, hmost⟩
      intro b hb
      rcases List.mem_cons.1 hb with rfl | hb
      · exact ⟨Nat.le_trans hleast hlow, Nat.le_trans hhigh hmost⟩
      · refine ih ?_ b hb
        intro seen code need low high heq
        cases heq
        exact ⟨by decide, by decide⟩

theorem Spells.bytes {n : Nat} {b : UInt8} {tail : Bytes} (h : Spells n (b :: tail)) :
    (tail = [] ∧ b.toNat < 0x80 ∧ n = b.toNat) ∨
      (tail ≠ [] ∧ 0xc2 ≤ b.toNat ∧ forall x, x ∈ tail -> isContinuation x) := by
  cases h with
  | single hb => exact .inl ⟨rfl, hb, rfl⟩
  | @several b cursor tail n hstart hcompletes =>
      refine .inr ⟨?_, ?_⟩
      · rintro rfl
        cases hcompletes
      · have hannounces := announces_start b
        rw [hstart] at hannounces
        cases hannounces with
        | two hlow _ =>
            refine ⟨hlow, hcompletes.isContinuation ?_⟩
            intro seen code need low high heq
            cases heq
            exact ⟨by decide, by decide⟩
        | three hlow _ hl hh =>
            refine ⟨by omega, hcompletes.isContinuation ?_⟩
            intro seen code need low high heq
            cases heq
            constructor
            · rw [hl]
              split <;> decide
            · rw [hh]
              split <;> decide
        | four hlow _ hl hh =>
            refine ⟨by omega, hcompletes.isContinuation ?_⟩
            intro seen code need low high heq
            cases heq
            constructor
            · rw [hl]
              split <;> decide
            · rw [hh]
              split <;> decide

/-! ## Whole texts -/

@[simp] theorem encode_cons (c : Char) (cs : List Char) :
    encode (c :: cs) = String.utf8EncodeChar c ++ encode cs :=
  List.flatMap_cons

@[simp] theorem encode_append (a b : List Char) : encode (a ++ b) = encode a ++ encode b :=
  List.flatMap_append

theorem pieces_encode_append (cs : List Char) (rest : Bytes) :
    pieces (encode cs ++ rest) = cs.map .char ++ pieces rest := by
  induction cs with
  | nil => rfl
  | cons c cs ih =>
      have hfirst := (spells_encodeChar c).pieces_append (encode cs ++ rest)
      rw [encode_cons, List.append_assoc, pieces, hfirst, Char.ofNat_toNat]
      exact congrArg _ ih

@[simp] theorem decodeLossy_encode_append (cs : List Char) (rest : Bytes) :
    decodeLossy (encode cs ++ rest) = cs ++ decodeLossy rest := by
  rw [decodeLossy, pieces_encode_append, List.map_append, List.map_map]
  have hchars : cs.map (Piece.lossy ∘ Piece.char) = cs := List.map_id cs
  rw [hchars]
  rfl

@[simp] theorem decodeLossy_encode (cs : List Char) : decodeLossy (encode cs) = cs := by
  have happend := decodeLossy_encode_append cs []
  rw [List.append_nil] at happend
  rw [happend]
  exact List.append_nil cs

theorem decodeLossy_continuation_append {y : Bytes} (hy : forall b, b ∈ y -> isContinuation b)
    (rest : Bytes) :
    decodeLossy (y ++ rest) = List.replicate y.length replacement ++ decodeLossy rest := by
  induction y with
  | nil => rfl
  | cons b y ih =>
      rcases hy b List.mem_cons_self with ⟨hlow, hhigh⟩
      have hstart := (@Announces.nothing b hlow (.inl (by omega))).eq_start
      have hrest := ih fun x hx => hy x (List.mem_cons_of_mem b hx)
      rw [decodeLossy, pieces] at hrest ⊢
      rw [List.cons_append, pieces_cons, Cursor.begin, hstart]
      exact congrArg _ hrest

theorem decodeLossy_of_cut {c : Char} {x y : Bytes} (hc : String.utf8EncodeChar c = x ++ y)
    (hx : x ≠ []) (hy : y ≠ []) : decodeLossy x = [replacement] := by
  have hspells := spells_encodeChar c
  rw [hc] at hspells
  cases x with
  | nil => exact absurd rfl hx
  | cons b x =>
      rw [List.cons_append] at hspells
      generalize htail : x ++ y = tail at hspells
      generalize c.toNat = n at hspells
      cases hspells with
      | single _ => exact absurd (List.append_eq_nil_iff.1 htail).2 hy
      | several hstart hcompletes =>
          rcases hcompletes.exists_pieces_eq htail.symm hy with ⟨run, hrun⟩
          rw [decodeLossy, pieces, pieces_cons, Cursor.begin, hstart]
          dsimp only
          rw [hrun]
          rfl

theorem not_isContinuation_of_encodeChar {c : Char} {b : UInt8} {tail : Bytes}
    (h : String.utf8EncodeChar c = b :: tail) : ¬ isContinuation b := by
  have hspells := spells_encodeChar c
  rw [h] at hspells
  rintro ⟨hlow, hhigh⟩
  rcases hspells.bytes with ⟨_, hascii, _⟩ | ⟨_, hlead, _⟩
  · omega
  · omega

theorem bytes_of_cut {c : Char} {x y : Bytes} (hc : String.utf8EncodeChar c = x ++ y)
    (hx : x ≠ []) (hy : y ≠ []) :
    (forall b, b ∈ x -> 0x80 ≤ b.toNat) ∧ forall b, b ∈ y -> isContinuation b := by
  have hspells := spells_encodeChar c
  rw [hc] at hspells
  cases x with
  | nil => exact absurd rfl hx
  | cons b x =>
      rcases hspells.bytes with ⟨hnone, _, _⟩ | ⟨_, hlead, htail⟩
      · exact absurd (List.append_eq_nil_iff.1 hnone).2 hy
      · constructor
        · intro b' hb'
          rcases List.mem_cons.1 hb' with rfl | hmem
          · omega
          · exact (htail b' (List.mem_append_left y hmem)).1
        · intro b' hb'
          exact htail b' (List.mem_append_right x hb')

/-- A cut of an encoded text stands between two characters or inside one. -/
theorem encode_eq_append {cs : List Char} {u w : Bytes} (h : encode cs = u ++ w) :
    (exists us ws, cs = us ++ ws ∧ u = encode us ∧ w = encode ws) ∨
      exists us c ws x y, cs = us ++ c :: ws ∧ String.utf8EncodeChar c = x ++ y ∧ x ≠ [] ∧
        y ≠ [] ∧ u = encode us ++ x ∧ w = y ++ encode ws := by
  induction cs generalizing u with
  | nil =>
      rcases List.append_eq_nil_iff.1 h.symm with ⟨rfl, rfl⟩
      exact .inl ⟨[], [], rfl, rfl, rfl⟩
  | cons c cs ih =>
      rw [encode_cons] at h
      rcases List.append_eq_append_iff.1 h with ⟨u', rfl, hrest⟩ | ⟨y, hc, rfl⟩
      · rcases ih hrest with ⟨us, ws, rfl, rfl, rfl⟩ | ⟨us, d, ws, x, y, rfl, hd, hx, hy, rfl, rfl⟩
        · exact .inl ⟨c :: us, ws, rfl, (encode_cons c us).symm, rfl⟩
        · refine .inr ⟨c :: us, d, ws, x, y, rfl, hd, hx, hy, ?_, rfl⟩
          rw [encode_cons, List.append_assoc]
      · by_cases hu : u = []
        · subst hu
          refine .inl ⟨[], c :: cs, rfl, rfl, ?_⟩
          rw [encode_cons, hc]
          rfl
        · by_cases hy : y = []
          · subst hy
            refine .inl ⟨[c], cs, rfl, ?_, rfl⟩
            rw [encode_cons, hc]
            simp [encode]
          · exact .inr ⟨[], c, cs, u, y, rfl, hc, hu, hy, rfl, rfl⟩

/-! ## Texts that are read without a fault -/

theorem le_of_ite {c : Prop} [Decidable c] {bound tight loose n : Nat}
    (hbound : bound = if c then tight else loose) (hle : loose ≤ tight) (h : bound ≤ n) :
    loose ≤ n ∧ (c -> tight ≤ n) := by
  split at hbound
  · exact ⟨by omega, fun _ => by omega⟩
  · next hc => exact ⟨by omega, fun hc' => absurd hc' hc⟩

theorem ge_of_ite {c : Prop} [Decidable c] {bound tight loose n : Nat}
    (hbound : bound = if c then tight else loose) (hle : tight ≤ loose) (h : n ≤ bound) :
    n ≤ loose ∧ (c -> n ≤ tight) := by
  split at hbound
  · exact ⟨by omega, fun _ => by omega⟩
  · next hc => exact ⟨by omega, fun hc' => absurd hc' hc⟩

theorem toNat_ofNat_of_valid {n : Nat} (h : n.isValidChar) : (Char.ofNat n).val.toNat = n := by
  rw [Char.ofNat, dif_pos h]
  rfl

theorem eq_ofNat_of_toNat_eq {b : UInt8} {n : Nat} (h : b.toNat = n) : UInt8.ofNat n = b := by
  rw [← h, UInt8.ofNat_toNat]

section Encoding

variable {b₀ b₁ b₂ b₃ : UInt8} {n : Nat}

theorem encodeChar_of_two (hlow : 0xc2 ≤ b₀.toNat) (hhigh : b₀.toNat ≤ 0xdf)
    (h₁ : isContinuation b₁) (hn : n = b₀.toNat % 32 * 64 + b₁.toNat % 64) :
    String.utf8EncodeChar (Char.ofNat n) = [b₀, b₁] := by
  rcases h₁ with ⟨hlow₁, hhigh₁⟩
  unfold String.utf8EncodeChar
  rw [toNat_ofNat_of_valid (.inl (by omega))]
  dsimp only
  rw [if_neg (by omega), if_pos (by omega), eq_ofNat_of_toNat_eq (show b₀.toNat = _ by omega),
    eq_ofNat_of_toNat_eq (show b₁.toNat = _ by omega)]

theorem encodeChar_of_three (hlow : 0xe0 ≤ b₀.toNat) (hhigh : b₀.toNat ≤ 0xef)
    (h₁ : isContinuation b₁) (h₂ : isContinuation b₂)
    (hshort : b₀.toNat = 0xe0 -> 0xa0 ≤ b₁.toNat)
    (hsurrogate : b₀.toNat = 0xed -> b₁.toNat ≤ 0x9f)
    (hn : n = (b₀.toNat % 16 * 64 + b₁.toNat % 64) * 64 + b₂.toNat % 64) :
    String.utf8EncodeChar (Char.ofNat n) = [b₀, b₁, b₂] := by
  rcases h₁ with ⟨hlow₁, hhigh₁⟩
  rcases h₂ with ⟨hlow₂, hhigh₂⟩
  have hvalid : n.isValidChar := by
    unfold Nat.isValidChar
    omega
  unfold String.utf8EncodeChar
  rw [toNat_ofNat_of_valid hvalid]
  dsimp only
  rw [if_neg (by omega), if_neg (by omega), if_pos (by omega),
    eq_ofNat_of_toNat_eq (show b₀.toNat = _ by omega),
    eq_ofNat_of_toNat_eq (show b₁.toNat = _ by omega),
    eq_ofNat_of_toNat_eq (show b₂.toNat = _ by omega)]

theorem encodeChar_of_four (hlow : 0xf0 ≤ b₀.toNat) (hhigh : b₀.toNat ≤ 0xf4)
    (h₁ : isContinuation b₁) (h₂ : isContinuation b₂) (h₃ : isContinuation b₃)
    (hshort : b₀.toNat = 0xf0 -> 0x90 ≤ b₁.toNat)
    (hlarge : b₀.toNat = 0xf4 -> b₁.toNat ≤ 0x8f)
    (hn : n = ((b₀.toNat % 8 * 64 + b₁.toNat % 64) * 64 + b₂.toNat % 64) * 64 +
      b₃.toNat % 64) :
    String.utf8EncodeChar (Char.ofNat n) = [b₀, b₁, b₂, b₃] := by
  rcases h₁ with ⟨hlow₁, hhigh₁⟩
  rcases h₂ with ⟨hlow₂, hhigh₂⟩
  rcases h₃ with ⟨hlow₃, hhigh₃⟩
  have hvalid : n.isValidChar := by
    unfold Nat.isValidChar
    omega
  unfold String.utf8EncodeChar
  rw [toNat_ofNat_of_valid hvalid]
  dsimp only
  rw [if_neg (by omega), if_neg (by omega), if_neg (by omega),
    eq_ofNat_of_toNat_eq (show b₀.toNat = _ by omega),
    eq_ofNat_of_toNat_eq (show b₁.toNat = _ by omega),
    eq_ofNat_of_toNat_eq (show b₂.toNat = _ by omega),
    eq_ofNat_of_toNat_eq (show b₃.toNat = _ by omega)]

end Encoding

theorem Spells.encodeChar_eq {n : Nat} {s : Bytes} (h : Spells n s) :
    String.utf8EncodeChar (Char.ofNat n) = s := by
  cases h with
  | @single b hb =>
      unfold String.utf8EncodeChar
      rw [toNat_ofNat_of_valid (.inl (by omega))]
      dsimp only
      rw [if_pos (by omega), UInt8.ofNat_toNat]
  | @several b cursor tail n hstart hcompletes =>
      have hannounces := announces_start b
      rw [hstart] at hannounces
      cases hannounces with
      | two hlow hhigh =>
          cases hcompletes with
          | last hlow₁ hhigh₁ => exact encodeChar_of_two hlow hhigh ⟨hlow₁, hhigh₁⟩ rfl
      | three hlow hhigh hl hh =>
          cases hcompletes with
          | more hlow₁ hhigh₁ hrest =>
              rcases le_of_ite hl (by decide) hlow₁ with ⟨hlow₁, hshort⟩
              rcases ge_of_ite hh (by decide) hhigh₁ with ⟨hhigh₁, hsurrogate⟩
              cases hrest with
              | last hlow₂ hhigh₂ =>
                  exact encodeChar_of_three hlow hhigh ⟨hlow₁, hhigh₁⟩ ⟨hlow₂, hhigh₂⟩
                    hshort hsurrogate rfl
      | four hlow hhigh hl hh =>
          cases hcompletes with
          | more hlow₁ hhigh₁ hrest =>
              rcases le_of_ite hl (by decide) hlow₁ with ⟨hlow₁, hshort⟩
              rcases ge_of_ite hh (by decide) hhigh₁ with ⟨hhigh₁, hlarge⟩
              cases hrest with
              | more hlow₂ hhigh₂ hrest =>
                  cases hrest with
                  | last hlow₃ hhigh₃ =>
                      exact encodeChar_of_four hlow hhigh ⟨hlow₁, hhigh₁⟩ ⟨hlow₂, hhigh₂⟩
                        ⟨hlow₃, hhigh₃⟩ hshort hlarge rfl

/-- After the first byte of a character the reader completes it, or there is a broken run. -/
theorem completes_or_broken {seen : Bytes} {code need : Nat} {low high : UInt8} (t : Bytes) :
    (exists tail rest n, t = tail ++ rest ∧
        Completes (.inside seen code (need + 1) low high) tail n) ∨
      exists run cut more, (Cursor.inside seen code (need + 1) low high).pieces t =
        .broken run cut :: more := by
  induction t generalizing seen code need low high with
  | nil => exact .inr ⟨_, _, _, rfl⟩
  | cons b t ih =>
      by_cases hbounds : low.toNat ≤ b.toNat ∧ b.toNat ≤ high.toNat
      · rcases hbounds with ⟨hlow, hhigh⟩
        cases need with
        | zero => exact .inl ⟨[b], t, _, rfl, .last hlow hhigh⟩
        | succ need =>
            rcases @ih (b :: seen) (code * 64 + b.toNat % 64) need 0x80 0xbf with
              ⟨tail, rest, n, rfl, hcompletes⟩ | ⟨run, cut, more, hbroken⟩
            · exact .inl ⟨b :: tail, rest, n, rfl, .more hlow hhigh hcompletes⟩
            · refine .inr ⟨run, cut, more, ?_⟩
              rw [pieces_inside_cons, advance_inside hlow hhigh, if_neg (by omega)]
              exact hbroken
      · refine .inr ⟨seen.reverse, false, (Cursor.begin b).1 ++ (Cursor.begin b).2.pieces t, ?_⟩
        have hout : ¬ (low ≤ b && b ≤ high) = true := by
          simpa [UInt8.le_iff_toNat_le] using hbounds
        rw [pieces_inside_cons, Cursor.advance, if_neg hout]
        rfl

theorem exists_inside_of_start {b : UInt8} {cursor : Cursor}
    (h : Cursor.start b = .inr cursor) :
    exists seen code need low high, cursor = .inside seen code (need + 1) low high := by
  have hannounces := announces_start b
  rw [h] at hannounces
  cases hannounces with
  | two _ _ => exact ⟨_, _, 0, _, _, rfl⟩
  | three _ _ _ _ => exact ⟨_, _, 1, _, _, rfl⟩
  | four _ _ _ _ => exact ⟨_, _, 2, _, _, rfl⟩

theorem exists_spells_of_pieces {b : UInt8} {t : Bytes} {cs : List Char}
    (h : pieces (b :: t) = cs.map .char) :
    exists tail rest n, t = tail ++ rest ∧ Spells n (b :: tail) := by
  have hannounces := announces_start b
  rw [pieces, pieces_cons, Cursor.begin] at h
  cases hstart : Cursor.start b with
  | inl piece =>
      rw [hstart] at hannounces h
      cases hannounces with
      | ascii hb => exact ⟨[], t, _, rfl, .single hb⟩
      | nothing _ _ =>
          cases cs with
          | nil => cases h
          | cons c cs => cases h
  | inr cursor =>
      rw [hstart] at h
      rcases exists_inside_of_start hstart with ⟨seen, code, need, low, high, rfl⟩
      rcases completes_or_broken t with ⟨tail, rest, n, rfl, hcompletes⟩ |
        ⟨run, cut, more, hbroken⟩
      · exact ⟨tail, rest, n, rfl, .several hstart hcompletes⟩
      · dsimp only at h
        rw [hbroken] at h
        cases cs with
        | nil => cases h
        | cons c cs => cases h

/-- A text without a broken run is the encoding of its characters. -/
theorem eq_encode_of_pieces {t : Bytes} {cs : List Char} (h : pieces t = cs.map .char) :
    t = encode cs := by
  induction hlength : t.length using Nat.strongRecOn generalizing t cs with
  | ind k ih =>
      cases t with
      | nil =>
          cases cs with
          | nil => rfl
          | cons c cs => cases h
      | cons b t =>
          rcases exists_spells_of_pieces h with ⟨tail, rest, n, rfl, hspells⟩
          rw [← List.cons_append, pieces, hspells.pieces_append] at h
          cases cs with
          | nil => cases h
          | cons c cs =>
              rcases List.cons.inj h with ⟨hfirst, hrest⟩
              cases hfirst
              have hlt : rest.length < k := by
                simp only [List.length_cons, List.length_append] at hlength
                omega
              rw [encode_cons, hspells.encodeChar_eq, ← ih _ hlt hrest rfl]
              rfl

theorem readPieces_eq_ok_iff (offset : Nat) (ps : List Piece) (cs : List Char) :
    readPieces offset ps = .ok cs ↔ ps = cs.map .char := by
  induction ps generalizing offset cs with
  | nil => cases cs <;> simp [readPieces]
  | cons piece ps ih =>
      cases piece with
      | broken run cut => cases cs <;> simp [readPieces]
      | char c =>
          rw [readPieces]
          cases hrest : readPieces (offset + c.utf8Size) ps with
          | error fault =>
              constructor
              · intro h
                cases h
              · intro h
                cases cs with
                | nil => cases h
                | cons d cs =>
                    have htail := (ih (offset + c.utf8Size) cs).2 (List.cons.inj h).2
                    rw [hrest] at htail
                    cases htail
          | ok ds =>
              have htail := (ih (offset + c.utf8Size) ds).1 hrest
              constructor
              · intro h
                cases h
                rw [htail]
                rfl
              · intro h
                cases cs with
                | nil => cases h
                | cons d cs =>
                    rcases List.cons.inj h with ⟨hfirst, hmore⟩
                    cases hfirst
                    have hok := (ih (offset + c.utf8Size) cs).2 hmore
                    rw [hrest] at hok
                    cases hok
                    rfl

/-- The strict reading accepts just the encoded texts. -/
theorem decode_eq_ok_iff (t : Bytes) (cs : List Char) : decode t = .ok cs ↔ t = encode cs := by
  rw [decode, readPieces_eq_ok_iff]
  constructor
  · exact eq_encode_of_pieces
  · rintro rfl
    have hpieces := pieces_encode_append cs []
    rw [List.append_nil] at hpieces
    rw [hpieces]
    exact List.append_nil _

end Text
end SurfaceFeed
