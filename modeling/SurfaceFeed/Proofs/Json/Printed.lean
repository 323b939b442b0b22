import SurfaceFeed.Proofs.Json.Tokens

/-!
# Reading what was printed

## Lists and objects

Printing puts each member of a list or an object on a line of its own.  What is
read of the text is what is read of the members, in their order, and nothing
else: a reading of a printed document ends where the document ends.
-/

namespace SurfaceFeed
namespace Json

open Text

@[simp] theorem bytesOf_append (a b : String) : bytesOf (a ++ b) = bytesOf a ++ bytesOf b := by
  rw [bytesOf, String.toList_append, encode_append]
  rfl

theorem space_newLine (level : Nat) : Space (bytesOf (newLine level)) := by
  intro b hb
  rw [bytesOf, newLine, String.toList_append, String.toList_ofList] at hb
  rcases List.mem_flatMap.1 hb with ⟨c, hc, hmem⟩
  have hblank : c = '\n' ∨ c = ' ' := by
    rcases List.mem_append.1 hc with hc | hc
    · exact .inl (by simpa using hc)
    · rw [String.toList_ofList] at hc
      exact .inr (List.eq_of_mem_replicate hc)
  rcases hblank with rfl | rfl
  · rw [List.mem_singleton.1 hmem]
    decide
  · rw [List.mem_singleton.1 hmem]
    decide

/-- What follows a member, up to the closing bracket. -/
def following (closing : UInt8) (level : Nat) : List String -> Bytes
  | [] => bytesOf (newLine level) ++ [closing]
  | member :: members =>
      0x2c :: (bytesOf (newLine (level + 1)) ++
        (bytesOf member ++ following closing level members))

theorem bytesOf_enclose {opening closing : String} {o c : UInt8} (ho : bytesOf opening = [o])
    (hc : bytesOf closing = [c]) (level : Nat) (member : String) (members : List String) :
    bytesOf (enclose opening closing level (member :: members)) =
      o :: (bytesOf (newLine (level + 1)) ++
        (bytesOf member ++ following c level members)) := by
  have hjoined : bytesOf (("," ++ newLine (level + 1)).intercalate (member :: members)) ++
      (bytesOf (newLine level) ++ [c]) = bytesOf member ++ following c level members := by
    induction members generalizing member with
    | nil => rw [String.intercalate_singleton, following]
    | cons next members ih =>
        have hcomma : bytesOf "," = [0x2c] := by decide
        simp [String.intercalate_cons_cons, ih, following, hcomma]
  simp [enclose, ← hjoined, ho, hc]

/-! What the parts of a document are printed as, in bytes. -/

theorem bytesOf_null (level : Nat) : bytesOf (indented level .null) = [0x6e, 0x75, 0x6c, 0x6c] := by
  rw [indented]
  decide

theorem bytesOf_true (level : Nat) :
    bytesOf (indented level (.bool true)) = [0x74, 0x72, 0x75, 0x65] := by
  rw [indented]
  decide

theorem bytesOf_false (level : Nat) :
    bytesOf (indented level (.bool false)) = [0x66, 0x61, 0x6c, 0x73, 0x65] := by
  rw [indented]
  decide

theorem bytesOf_noItems (level : Nat) :
    bytesOf (indented level (.array [])) = [0x5b, 0x5d] := by
  have hpair : bytesOf ("[" ++ "]") = [0x5b, 0x5d] := by decide
  exact hpair

theorem bytesOf_noFields (level : Nat) :
    bytesOf (indented level (.object [])) = [0x7b, 0x7d] := by
  have hpair : bytesOf ("\x7b" ++ "\x7d") = [0x7b, 0x7d] := by decide
  exact hpair

theorem bytesOf_someItems (level : Nat) (v : Json) (vs : List Json) :
    bytesOf (indented level (.array (v :: vs))) =
      0x5b :: (bytesOf (newLine (level + 1)) ++ (bytesOf (indented (level + 1) v) ++
        following 0x5d level (indentedItems (level + 1) vs))) := by
  have hopen : bytesOf "[" = [0x5b] := by decide
  have hclose : bytesOf "]" = [0x5d] := by decide
  rw [indented, indentedItems, bytesOf_enclose hopen hclose]

def fieldText (level : Nat) (name : String) (v : Json) : Bytes :=
  bytesOf (writeString name) ++ 0x3a :: 0x20 :: bytesOf (indented level v)

theorem bytesOf_field (level : Nat) (name : String) (v : Json) :
    bytesOf (writeString name ++ ": " ++ indented level v) = fieldText level name v := by
  have hcolon : bytesOf ": " = [0x3a, 0x20] := by decide
  simp [fieldText, hcolon]

theorem bytesOf_someFields (level : Nat) (name : String) (v : Json)
    (fs : List (String × Json)) :
    bytesOf (indented level (.object ((name, v) :: fs))) =
      0x7b :: (bytesOf (newLine (level + 1)) ++ (fieldText (level + 1) name v ++
        following 0x7d level (indentedFields (level + 1) fs))) := by
  have hopen : bytesOf "\x7b" = [0x7b] := by decide
  have hclose : bytesOf "\x7d" = [0x7d] := by decide
  rw [indented, indentedFields, bytesOf_enclose hopen hclose, bytesOf_field]

theorem following_item (level : Nat) (v : Json) (vs : List Json) :
    following 0x5d level (indentedItems (level + 1) (v :: vs)) =
      0x2c :: (bytesOf (newLine (level + 1)) ++ (bytesOf (indented (level + 1) v) ++
        following 0x5d level (indentedItems (level + 1) vs))) := by
  rw [indentedItems, following]

theorem following_field (level : Nat) (name : String) (v : Json) (fs : List (String × Json)) :
    following 0x7d level (indentedFields (level + 1) ((name, v) :: fs)) =
      0x2c :: (bytesOf (newLine (level + 1)) ++ (fieldText (level + 1) name v ++
        following 0x7d level (indentedFields (level + 1) fs))) := by
  rw [indentedFields, following, bytesOf_field]

/-! ## Levels

A document that is no list and no object has no level, and a list or an object has one level
more than what is in it.
-/

mutual

def levels : Json -> Nat
  | array vs => levelsOfItems vs + 1
  | object fs => levelsOfFields fs + 1
  | _ => 0

def levelsOfItems : List Json -> Nat
  | [] => 0
  | v :: vs => max (levels v) (levelsOfItems vs)

def levelsOfFields : List (String × Json) -> Nat
  | [] => 0
  | (_, v) :: fs => max (levels v) (levelsOfFields fs)

end

def Part.levels : Part -> Nat
  | value v | field _ v => v.levels
  | items vs => levelsOfItems vs
  | fields fs => levelsOfFields fs

theorem levelsOfItems_le_iff {depth : Nat} {vs : List Json} :
    levelsOfItems vs ≤ depth ↔ forall v, v ∈ vs -> v.levels ≤ depth := by
  induction vs with
  | nil => simp [levelsOfItems]
  | cons v vs ih => rw [levelsOfItems, Nat.max_le, ih, List.forall_mem_cons]

/-! ## What is read of a printed text -/

/--
What is read of a part that was printed, if lists and objects in it nest at most `depth` deep.
Of a number that is what the reader makes of its text.
-/
inductive Rereads : Nat -> Part -> Part -> Prop where
  | null {depth : Nat} : Rereads depth (.value .null) (.value .null)
  | bool {depth : Nat} {b : Bool} : Rereads depth (.value (.bool b)) (.value (.bool b))
  | text {depth : Nat} {s : String} : Rereads depth (.value (.text s)) (.value (.text s))
  | number {depth : Nat} {v w : Json} :
      Number.isNumber v = true -> Written 0 (.value w) (bytesOf v.pretty) ->
      Rereads depth (.value v) (.value w)
  | array {depth : Nat} {vs ws : List Json} :
      Rereads depth (.items vs) (.items ws) ->
      Rereads (depth + 1) (.value (.array vs)) (.value (.array ws))
  | object {depth : Nat} {fs gs : List (String × Json)} :
      Rereads depth (.fields fs) (.fields gs) ->
      Rereads (depth + 1) (.value (.object fs)) (.value (.object (Fields.ofList gs)))
  | noItems {depth : Nat} : Rereads depth (.items []) (.items [])
  | someItems {depth : Nat} {v w : Json} {vs ws : List Json} :
      Rereads depth (.value v) (.value w) -> Rereads depth (.items vs) (.items ws) ->
      Rereads depth (.items (v :: vs)) (.items (w :: ws))
  | noFields {depth : Nat} : Rereads depth (.fields []) (.fields [])
  | someFields {depth : Nat} {name : String} {v w : Json} {fs gs : List (String × Json)} :
      Rereads depth (.value v) (.value w) -> Rereads depth (.fields fs) (.fields gs) ->
      Rereads depth (.fields ((name, v) :: fs)) (.fields ((name, w) :: gs))

theorem levels_of_isNumber {v : Json} (h : Number.isNumber v = true) : v.levels = 0 := by
  cases v with
  | array vs => cases h
  | object fs => cases h
  | _ => rfl

theorem Rereads.levels_le {depth : Nat} {part part' : Part} (h : Rereads depth part part') :
    part.levels ≤ depth := by
  induction h with
  | null => exact Nat.zero_le _
  | bool => exact Nat.zero_le _
  | text => exact Nat.zero_le _
  | number hnumber _ =>
      rw [Part.levels, levels_of_isNumber hnumber]
      exact Nat.zero_le _
  | array _ ih => exact Nat.succ_le_succ ih
  | object _ ih => exact Nat.succ_le_succ ih
  | noItems => exact Nat.zero_le _
  | someItems _ _ ihv ihs => exact Nat.max_le.2 ⟨ihv, ihs⟩
  | noFields => exact Nat.zero_le _
  | someFields _ _ ihv ihs => exact Nat.max_le.2 ⟨ihv, ihs⟩

theorem Rereads.of_levels_le {depth depth' : Nat} {part part' : Part}
    (h : Rereads depth part part') (hle : part.levels ≤ depth') : Rereads depth' part part' := by
  induction h generalizing depth' with
  | null => exact .null
  | bool => exact .bool
  | text => exact .text
  | number hnumber hw => exact .number hnumber hw
  | array _ ih =>
      cases depth' with
      | zero => cases hle
      | succ depth' => exact .array (ih (Nat.le_of_succ_le_succ hle))
  | object _ ih =>
      cases depth' with
      | zero => cases hle
      | succ depth' => exact .object (ih (Nat.le_of_succ_le_succ hle))
  | noItems => exact .noItems
  | someItems _ _ ihv ihs =>
      rcases Nat.max_le.1 hle with ⟨hv, hvs⟩
      exact .someItems (ihv hv) (ihs hvs)
  | noFields => exact .noFields
  | someFields _ _ ihv ihs =>
      rcases Nat.max_le.1 hle with ⟨hv, hfs⟩
      exact .someFields (ihv hv) (ihs hfs)

def Part.Prints (depth : Nat) : Part -> Part -> Prop
  | value v, value w => forall level, Written depth (.value w) (bytesOf (indented level v))
  | items vs, items ws => forall level,
      Written (depth + 1) (.value (.array ws)) (bytesOf (indented level (.array vs))) ∧
        Written depth (.items ws) (following 0x5d level (indentedItems (level + 1) vs))
  | fields fs, fields gs => forall level,
      Written (depth + 1) (.value (.object (Fields.ofList gs)))
          (bytesOf (indented level (.object fs))) ∧
        Written depth (.fields gs) (following 0x7d level (indentedFields (level + 1) fs))
  | _, _ => True

theorem pretty_of_isNumber {v : Json} (h : Number.isNumber v = true) (level : Nat) :
    indented level v = v.pretty := by
  cases v with
  | int n => rfl
  | float f => rfl
  | null => cases h
  | bool b => cases h
  | text s => cases h
  | array items => cases h
  | object fields => cases h

theorem written_field {depth level : Nat} {v w : Json} (name : String)
    (h : Written depth (.value w) (bytesOf (indented level v))) :
    Written depth (.field name w) (fieldText level name v) := by
  rcases exists_quoted_writeString name with ⟨q, hbytes, hq⟩
  have hspace : Space [0x20] := forall_mem_of_all (by decide)
  rw [fieldText, hbytes]
  exact .field hq space_nil hspace h

theorem Rereads.prints {depth : Nat} {part part' : Part} (h : Rereads depth part part') :
    Part.Prints depth part part' := by
  induction h with
  | null =>
      intro level
      rw [bytesOf_null]
      exact .null
  | @bool _ b =>
      intro level
      cases b with
      | true =>
          rw [bytesOf_true]
          exact .yes
      | false =>
          rw [bytesOf_false]
          exact .no
  | @text depth s =>
      intro level
      rcases exists_quoted_writeString s with ⟨q, hbytes, hq⟩
      rw [indented, hbytes]
      exact .text hq
  | @number depth v w hnumber hwritten =>
      intro level
      rw [pretty_of_isNumber hnumber]
      exact hwritten.mono (Nat.zero_le depth)
  | array _ ih => exact fun level => (ih level).1
  | object _ ih => exact fun level => (ih level).1
  | noItems =>
      intro level
      refine ⟨?_, .endOfItems (space_newLine level)⟩
      rw [bytesOf_noItems]
      exact .noItems space_nil
  | someItems _ _ ihv ihs =>
      intro level
      have hline := space_newLine (level + 1)
      refine ⟨?_, ?_⟩
      · rw [bytesOf_someItems]
        exact .someItems hline (ihv (level + 1)) (ihs level).2
      · rw [following_item]
        exact .nextItem space_nil hline (ihv (level + 1)) (ihs level).2
  | noFields =>
      intro level
      refine ⟨?_, .endOfFields (space_newLine level)⟩
      rw [bytesOf_noFields]
      exact .noFields space_nil
  | @someFields _ name _ _ _ _ _ _ ihv ihs =>
      intro level
      have hline := space_newLine (level + 1)
      have hfield := written_field name (ihv (level + 1))
      refine ⟨?_, ?_⟩
      · rw [bytesOf_someFields]
        exact .someFields hline hfield (ihs level).2
      · rw [following_field]
        exact .nextField space_nil hline hfield (ihs level).2

/-! ## Nothing else is read of it -/

theorem exists_head_of_indented (level : Nat) (v : Json) :
    exists b t, bytesOf (indented level v) = b :: t ∧ Reader.isSpace b = false ∧ b ≠ 0x5d := by
  have hnumeral : forall text, NumeralText text ->
      exists b t, bytesOf text = b :: t ∧ Reader.isSpace b = false ∧ b ≠ 0x5d := by
    intro text htext
    rcases htext.numeral with ⟨hne, hnumeric⟩
    rcases List.exists_cons_of_ne_nil hne with ⟨b, t, hb⟩
    have hfirst := hnumeric b (by rw [hb]; exact List.mem_cons_self)
    refine ⟨b, t, hb, ?_, ?_⟩
    · rw [Bool.eq_false_iff]
      intro hspace
      rw [isNumeric_of_isSpace hspace] at hfirst
      cases hfirst
    · rintro rfl
      cases hfirst
  cases v with
  | null => exact ⟨_, _, bytesOf_null level, by decide, by decide⟩
  | bool b =>
      cases b with
      | true => exact ⟨_, _, bytesOf_true level, by decide, by decide⟩
      | false => exact ⟨_, _, bytesOf_false level, by decide, by decide⟩
  | int n => exact hnumeral _ (numeralText_writeInt n)
  | float f =>
      rcases writeFloat_cases f with hnull | htext
      · rw [indented, hnull]
        exact ⟨_, _, bytesOf_null level, by decide, by decide⟩
      · exact hnumeral _ htext
  | text s =>
      rcases exists_quoted_writeString s with ⟨q, hbytes, _⟩
      exact ⟨_, _, hbytes, by decide, by decide⟩
  | array vs =>
      cases vs with
      | nil => exact ⟨_, _, bytesOf_noItems level, by decide, by decide⟩
      | cons v vs => exact ⟨_, _, bytesOf_someItems level v vs, by decide, by decide⟩
  | object fs =>
      cases fs with
      | nil => exact ⟨_, _, bytesOf_noFields level, by decide, by decide⟩
      | cons field fs => exact ⟨_, _, bytesOf_someFields level field.1 field.2 fs, by decide, by decide⟩

theorem written_of_numeral {fuel depth : Nat} {s rest rest' : Bytes} {w : Json}
    (hs : Numeral s) (h : Reader.value fuel depth (s ++ rest') = .ok (w, rest))
    (hrest : Number.Stops rest) (hrest' : Number.Stops rest') :
    rest = rest' ∧ Written 0 (.value w) s := by
  rcases List.exists_cons_of_ne_nil hs.nonempty with ⟨b, t, rfl⟩
  rw [List.cons_append] at h
  have htail : forall x, x ∈ t -> Number.isNumeric x = true := fun x hx =>
    hs.numeric x (List.mem_cons_of_mem b hx)
  have hfirst := hs.numeric b List.mem_cons_self
  simp only [Number.isNumeric, Number.isExponentLetter, Bool.or_eq_true, beq_iff_eq] at hfirst
  rcases hfirst with (((hdigit | rfl) | rfl | rfl) | rfl) | rfl
  · rw [value_digit hdigit] at h
    rcases Number.exists_digits_of_read h hrest with ⟨digits, htext, hdigits⟩
    rcases eq_of_numeric_append hs.numeric hdigits.numeric hrest' hrest htext with ⟨rfl, hends⟩
    exact ⟨hends.symm, .number hdigit hdigits⟩
  · cases depth <;> cases h
  · cases depth <;> cases h
  · cases depth <;> cases h
  · cases depth <;> cases h
  · rw [value_minus] at h
    rcases Number.exists_digits_of_read h hrest with ⟨digits, htext, hdigits⟩
    rcases eq_of_numeric_append htail hdigits.numeric hrest' hrest htext with ⟨rfl, hends⟩
    exact ⟨hends.symm, .negative hdigits⟩

/-- Whatever is read of a printed document ends where the document ends. -/
def EndsWhereItEnds (v : Json) : Prop :=
  forall (fuel depth level : Nat) (w : Json) (rest rest' : Bytes),
    Reader.value fuel depth (bytesOf (indented level v) ++ rest') = .ok (w, rest) ->
    Number.Stops rest -> Number.Stops rest' -> rest = rest' ∧ Rereads depth (.value v) (.value w)

theorem following_stops {closing : UInt8} (hclosing : Number.isNumeric closing = false)
    (level : Nat) (members : List String) (rest : Bytes) :
    Number.Stops (following closing level members ++ rest) := by
  cases members with
  | nil =>
      rw [following, List.append_assoc]
      exact (space_newLine level).stops hclosing rest
  | cons member members => exact Number.stops_cons _ (by decide)

theorem nextItem_first (level : Nat) (v : Json) (s : Bytes) :
    Reader.nextItem true (bytesOf (newLine level) ++ (bytesOf (indented level v) ++ s)) =
      .ok (.member (bytesOf (indented level v) ++ s)) := by
  rcases exists_head_of_indented level v with ⟨b, t, hb, hspace, hclose⟩
  rw [hb, List.cons_append]
  exact nextItem_true (space_newLine level) hspace hclose

theorem nextItem_later (level : Nat) (v : Json) (s : Bytes) :
    Reader.nextItem false (0x2c :: (bytesOf (newLine level) ++ (bytesOf (indented level v) ++ s))) =
      .ok (.member (bytesOf (indented level v) ++ s)) := by
  rcases exists_head_of_indented level v with ⟨b, t, hb, hspace, hclose⟩
  rw [hb, List.cons_append]
  exact nextItem_false space_nil (space_newLine level) hspace hclose

theorem fieldText_append {name : String} {q : Bytes}
    (hbytes : bytesOf (writeString name) = 0x22 :: q) (level : Nat) (v : Json) (s : Bytes) :
    fieldText level name v ++ s =
      0x22 :: (q ++ 0x3a :: 0x20 :: (bytesOf (indented level v) ++ s)) := by
  rw [fieldText, hbytes]
  simp

theorem items_close {a : Bytes} (ha : Space a)
    (item : Bytes -> Except (Stop Fault) (Json × Bytes)) (count : Nat) (first : Bool)
    (rest : Bytes) :
    Reader.items item (count + 1) first (a ++ 0x5d :: rest) = .ok ([], rest) := by
  rw [Reader.items, nextItem_close ha]
  rfl

theorem fields_close {a : Bytes} (ha : Space a)
    (name : Bytes -> Except (Stop Fault) (String × Bytes))
    (item : Bytes -> Except (Stop Fault) (Json × Bytes)) (count : Nat) (first : Bool)
    (rest : Bytes) :
    Reader.fields name item (count + 1) first (a ++ 0x7d :: rest) = .ok ([], rest) := by
  rw [Reader.fields, nextField_close ha]
  rfl

theorem nextField_later (level : Nat) (s : Bytes) :
    Reader.nextField false (0x2c :: (bytesOf (newLine level) ++ 0x22 :: s)) = .ok (.member s) :=
  nextField_false space_nil (space_newLine level) s

section Members

variable {fuel count depth level : Nat} {v : Json} {rest rest' : Bytes}

theorem rereads_of_member {vs ws : List Json} (hv : EndsWhereItEnds v)
    (hvs : forall ws, Reader.items (Reader.value fuel depth) count false
        (following 0x5d level (indentedItems (level + 1) vs) ++ rest') = .ok (ws, rest) ->
      rest = rest' ∧ Rereads depth (.items vs) (.items ws))
    (h : (do
      let (w, s) ← Reader.value fuel depth (bytesOf (indented (level + 1) v) ++
        (following 0x5d level (indentedItems (level + 1) vs) ++ rest'))
      let (ws, s) ← Reader.items (Reader.value fuel depth) count false s
      .ok (w :: ws, s)) = .ok (ws, rest)) :
    rest = rest' ∧ Rereads depth (.items (v :: vs)) (.items ws) := by
  rcases exists_ok_of_bind h with ⟨⟨w, s⟩, hvalue, hafter⟩
  rcases exists_ok_of_bind hafter with ⟨⟨ws', s'⟩, hmore, hout⟩
  cases hout
  rcases written_of_items (valuesWritten fuel depth) hmore with ⟨t, hs, ht⟩
  have hstops := ht.items_stops rest
  rw [← hs] at hstops
  rcases hv _ _ _ _ _ _ hvalue hstops (following_stops (by decide) _ _ _) with ⟨rfl, hw⟩
  rcases hvs _ hmore with ⟨hends, hws⟩
  exact ⟨hends, .someItems hw hws⟩

theorem rereads_of_items {vs ws : List Json} (hvs : forall v, v ∈ vs -> EndsWhereItEnds v)
    (h : Reader.items (Reader.value fuel depth) count false
      (following 0x5d level (indentedItems (level + 1) vs) ++ rest') = .ok (ws, rest)) :
    rest = rest' ∧ Rereads depth (.items vs) (.items ws) := by
  induction vs generalizing count ws with
  | nil =>
      cases count with
      | zero => cases h
      | succ count =>
          rw [indentedItems, following, List.append_assoc, List.singleton_append,
            items_close (space_newLine level)] at h
          cases h
          exact ⟨rfl, .noItems⟩
  | cons v vs ih =>
      cases count with
      | zero => cases h
      | succ count =>
          rw [following_item, List.cons_append, List.append_assoc, List.append_assoc,
            Reader.items, nextItem_later] at h
          exact rereads_of_member (hvs v List.mem_cons_self)
            (fun ws hws => ih (fun x hx => hvs x (List.mem_cons_of_mem v hx)) hws) h

theorem rereads_of_field {name : String} {q : Bytes} {fs gs : List (String × Json)}
    (hv : EndsWhereItEnds v) (hq : Quoted q name)
    (hfs : forall gs, Reader.fields (Reader.string fuel) (Reader.value fuel depth) count false
        (following 0x7d level (indentedFields (level + 1) fs) ++ rest') = .ok (gs, rest) ->
      rest = rest' ∧ Rereads depth (.fields fs) (.fields gs))
    (h : (do
      let (key, s) ← Reader.string fuel (q ++ 0x3a :: 0x20 :: (bytesOf (indented (level + 1) v) ++
        (following 0x7d level (indentedFields (level + 1) fs) ++ rest')))
      let s ← Reader.colon s
      let (w, s) ← Reader.value fuel depth s
      let (gs, s) ← Reader.fields (Reader.string fuel) (Reader.value fuel depth) count false s
      .ok ((key, w) :: gs, s)) = .ok (gs, rest)) :
    rest = rest' ∧ Rereads depth (.fields ((name, v) :: fs)) (.fields gs) := by
  rcases exists_ok_of_bind h with ⟨⟨key, s₁⟩, hname, hafter⟩
  rcases exists_ok_of_bind hafter with ⟨s₂, hcolon, hafter⟩
  rcases exists_ok_of_bind hafter with ⟨⟨w, s₃⟩, hvalue, hafter⟩
  rcases exists_ok_of_bind hafter with ⟨⟨gs', s₄⟩, hmore, hout⟩
  cases hout
  rcases exists_quoted_of_string hname with ⟨q', htext, hq'⟩
  rcases hq.append_inj hq' htext with ⟨rfl, rfl, rfl⟩
  have hspace : Space [0x20] := forall_mem_of_all (by decide)
  cases (colon_append space_nil _).symm.trans hcolon
  rw [← List.singleton_append, hspace.value_append] at hvalue
  rcases written_of_fields (valuesWritten fuel depth) hmore with ⟨t, hs, ht⟩
  have hstops := ht.fields_stops rest
  rw [← hs] at hstops
  rcases hv _ _ _ _ _ _ hvalue hstops (following_stops (by decide) _ _ _) with ⟨rfl, hw⟩
  rcases hfs _ hmore with ⟨hends, hgs⟩
  exact ⟨hends, .someFields hw hgs⟩

theorem rereads_of_fields {fs gs : List (String × Json)}
    (hfs : forall field, field ∈ fs -> EndsWhereItEnds field.2)
    (h : Reader.fields (Reader.string fuel) (Reader.value fuel depth) count false
      (following 0x7d level (indentedFields (level + 1) fs) ++ rest') = .ok (gs, rest)) :
    rest = rest' ∧ Rereads depth (.fields fs) (.fields gs) := by
  induction fs generalizing count gs with
  | nil =>
      cases count with
      | zero => cases h
      | succ count =>
          rw [indentedFields, following, List.append_assoc, List.singleton_append,
            fields_close (space_newLine level)] at h
          cases h
          exact ⟨rfl, .noFields⟩
  | cons field fs ih =>
      cases count with
      | zero => cases h
      | succ count =>
          rcases field with ⟨name, v⟩
          rcases exists_quoted_writeString name with ⟨q, hbytes, hq⟩
          rw [following_field, List.cons_append, List.append_assoc, List.append_assoc,
            fieldText_append hbytes, Reader.fields, nextField_later] at h
          exact rereads_of_field (hfs (name, v) List.mem_cons_self) hq
            (fun gs hgs => ih (fun x hx => hfs x (List.mem_cons_of_mem _ hx)) hgs) h

end Members

theorem exists_items_of_value {fuel depth : Nat} {s rest : Bytes} {w : Json}
    (h : Reader.value fuel depth (0x5b :: s) = .ok (w, rest)) :
    exists below count ws, depth = below + 1 ∧ fuel = count + 1 ∧ w = .array ws ∧
      Reader.items (Reader.value fuel below) (count + 1) true s = .ok (ws, rest) := by
  cases depth with
  | zero => cases h
  | succ below =>
      rw [value_list] at h
      rcases exists_ok_of_bind h with ⟨⟨ws, s'⟩, hitems, hout⟩
      cases hout
      cases fuel with
      | zero => cases hitems
      | succ count => exact ⟨below, count, ws, rfl, rfl, rfl, hitems⟩

theorem exists_fields_of_value {fuel depth : Nat} {s rest : Bytes} {w : Json}
    (h : Reader.value fuel depth (0x7b :: s) = .ok (w, rest)) :
    exists below count gs, depth = below + 1 ∧ fuel = count + 1 ∧ w = .object (Fields.ofList gs) ∧
      Reader.fields (Reader.string fuel) (Reader.value fuel below) (count + 1) true s =
        .ok (gs, rest) := by
  cases depth with
  | zero => cases h
  | succ below =>
      rw [value_object] at h
      rcases exists_ok_of_bind h with ⟨⟨gs, s'⟩, hfields, hout⟩
      cases hout
      cases fuel with
      | zero => cases hfields
      | succ count => exact ⟨below, count, gs, rfl, rfl, rfl, hfields⟩

theorem rereads_of_array {fuel depth level : Nat} {vs : List Json} {w : Json}
    {rest rest' : Bytes} (hvs : forall v, v ∈ vs -> EndsWhereItEnds v)
    (h : Reader.value fuel depth (bytesOf (indented level (.array vs)) ++ rest') =
      .ok (w, rest)) :
    rest = rest' ∧ Rereads depth (.value (.array vs)) (.value w) := by
  cases vs with
  | nil =>
      rw [bytesOf_noItems] at h
      rcases exists_items_of_value h with ⟨below, count, ws, rfl, rfl, rfl, hitems⟩
      cases (items_close space_nil _ count true rest').symm.trans hitems
      exact ⟨rfl, .array .noItems⟩
  | cons v vs =>
      rw [bytesOf_someItems, List.cons_append, List.append_assoc, List.append_assoc] at h
      rcases exists_items_of_value h with ⟨below, count, ws, rfl, rfl, rfl, hitems⟩
      rw [Reader.items, nextItem_first] at hitems
      have htail := fun x hx => hvs x (List.mem_cons_of_mem v hx)
      rcases rereads_of_member (hvs v List.mem_cons_self)
        (fun ws hws => rereads_of_items htail hws) hitems with ⟨hends, hws⟩
      exact ⟨hends, .array hws⟩

theorem rereads_of_object {fuel depth level : Nat} {fs : List (String × Json)} {w : Json}
    {rest rest' : Bytes} (hfs : forall field, field ∈ fs -> EndsWhereItEnds field.2)
    (h : Reader.value fuel depth (bytesOf (indented level (.object fs)) ++ rest') =
      .ok (w, rest)) :
    rest = rest' ∧ Rereads depth (.value (.object fs)) (.value w) := by
  cases fs with
  | nil =>
      rw [bytesOf_noFields] at h
      rcases exists_fields_of_value h with ⟨below, count, gs, rfl, rfl, rfl, hfields⟩
      cases (fields_close space_nil _ _ count true rest').symm.trans hfields
      exact ⟨rfl, .object .noFields⟩
  | cons field fs =>
      rcases field with ⟨name, v⟩
      rcases exists_quoted_writeString name with ⟨q, hbytes, hq⟩
      rw [bytesOf_someFields, List.cons_append, List.append_assoc, List.append_assoc,
        fieldText_append hbytes] at h
      rcases exists_fields_of_value h with ⟨below, count, gs, rfl, rfl, rfl, hfields⟩
      rw [Reader.fields, nextField_true (space_newLine (level + 1))] at hfields
      have htail := fun x hx => hfs x (List.mem_cons_of_mem (name, v) hx)
      rcases rereads_of_field (hfs (name, v) List.mem_cons_self) hq
        (fun gs hgs => rereads_of_fields htail hgs) hfields with ⟨hends, hgs⟩
      exact ⟨hends, .object hgs⟩

theorem rereads_of_float {fuel depth level : Nat} {f : Float} {w : Json} {rest rest' : Bytes}
    (h : Reader.value fuel depth (bytesOf (indented level (.float f)) ++ rest') = .ok (w, rest))
    (hrest : Number.Stops rest) (hrest' : Number.Stops rest') :
    rest = rest' ∧ Rereads depth (.value (.float f)) (.value w) := by
  rcases writeFloat_cases f with hnull | htext
  · have hbytes : bytesOf (writeFloat f) = [0x6e, 0x75, 0x6c, 0x6c] := by
      rw [hnull]
      decide
    rw [indented, hbytes, List.cons_append, value_null] at h
    cases (word_append _ _ _).symm.trans h
    refine ⟨rfl, .number rfl ?_⟩
    rw [pretty, indented, hbytes]
    exact .null
  · rcases written_of_numeral htext.numeral h hrest hrest' with ⟨hends, hw⟩
    exact ⟨hends, .number rfl hw⟩

theorem rereads_of_text {fuel depth level : Nat} {s : String} {w : Json} {rest rest' : Bytes}
    (h : Reader.value fuel depth (bytesOf (indented level (.text s)) ++ rest') = .ok (w, rest)) :
    rest = rest' ∧ Rereads depth (.value (.text s)) (.value w) := by
  rcases exists_quoted_writeString s with ⟨q, hbytes, hq⟩
  rw [indented, hbytes, List.cons_append, value_quote] at h
  rcases exists_ok_of_bind h with ⟨⟨name, s'⟩, hname, hout⟩
  cases hout
  rcases exists_quoted_of_string hname with ⟨q', htext, hq'⟩
  rcases hq.append_inj hq' htext with ⟨rfl, _, rfl⟩
  exact ⟨rfl, .text⟩

/-- Whatever is read of a printed document ends where the document ends. -/
theorem endsWhereItEnds : (v : Json) -> EndsWhereItEnds v
  | .null => by
      intro fuel depth level w rest rest' h _ _
      rw [bytesOf_null, List.cons_append, value_null] at h
      cases (word_append _ _ _).symm.trans h
      exact ⟨rfl, .null⟩
  | .bool true => by
      intro fuel depth level w rest rest' h _ _
      rw [bytesOf_true, List.cons_append, value_true] at h
      cases (word_append _ _ _).symm.trans h
      exact ⟨rfl, .bool⟩
  | .bool false => by
      intro fuel depth level w rest rest' h _ _
      rw [bytesOf_false, List.cons_append, value_false] at h
      cases (word_append _ _ _).symm.trans h
      exact ⟨rfl, .bool⟩
  | .int n => by
      intro fuel depth level w rest rest' h hrest hrest'
      rcases written_of_numeral (numeralText_writeInt n).numeral h hrest hrest' with ⟨hends, hw⟩
      exact ⟨hends, .number rfl hw⟩
  | .float _ => fun _ _ _ _ _ _ h hrest hrest' => rereads_of_float h hrest hrest'
  | .text _ => fun _ _ _ _ _ _ h _ _ => rereads_of_text h
  | .array vs => fun _ _ _ _ _ _ h _ _ =>
      rereads_of_array (fun v hv => endsWhereItEnds v) h
  | .object fs => fun _ _ _ _ _ _ h _ _ =>
      rereads_of_object (fun field hfield => endsWhereItEnds field.2) h
termination_by v => sizeOf v
decreasing_by
  · have hlt := List.sizeOf_lt_of_mem hv
    simp only [array.sizeOf_spec]
    omega
  · have hlt := List.sizeOf_lt_of_mem hfield
    rcases field with ⟨name, v⟩
    simp only [object.sizeOf_spec, Prod.mk.sizeOf_spec] at hlt ⊢
    omega

/-! ## Whole texts -/

/-- The text of a document is read just as what is read of its parts. -/
theorem ofBytes_pretty_eq_ok_iff (v w : Json) :
    ofBytes (bytesOf v.pretty) = .ok w ↔ Rereads Reader.deepest (.value v) (.value w) := by
  rw [ofBytes_eq_ok_iff]
  constructor
  · intro h
    rcases exists_head_of_indented 0 v with ⟨b, t, hb, hspace, _⟩
    have htext : bytesOf v.pretty = b :: t := hb
    rw [htext] at h
    rcases h.exists_front hspace with ⟨s, a, hsplit, ha, hs⟩
    have hread := hs.taken s.length a (Nat.le_refl _) ha.stops_self
    rw [← hsplit, ← htext, ← List.append_nil (bytesOf v.pretty)] at hread
    exact (endsWhereItEnds v _ _ _ _ _ _ hread ha.stops_self Number.stops_nil).2
  · intro h
    exact ⟨[], _, [], by rw [List.nil_append, List.append_nil, pretty], space_nil, space_nil,
      h.prints 0⟩

/--
Of the items of a printed list is read what is read of their own texts, if they are not too
deep for the list.
-/
theorem rereads_items_iff {depth : Nat} (hdepth : depth ≤ Reader.deepest) {vs ws : List Json} :
    Rereads depth (.items vs) (.items ws) ↔
      (vs.map fun v => ofText v.pretty) = ws.map .ok ∧ forall v, v ∈ vs -> v.levels ≤ depth := by
  rw [← levelsOfItems_le_iff]
  constructor
  · intro h
    refine ⟨?_, h.levels_le⟩
    induction vs generalizing ws with
    | nil =>
        cases h with
        | noItems => rfl
    | cons v vs ih =>
        cases h with
        | someItems hv hvs =>
            have hread := (ofBytes_pretty_eq_ok_iff v _).2
              (hv.of_levels_le (Nat.le_trans hv.levels_le hdepth))
            rw [List.map_cons, List.map_cons, ih hvs, ofText, hread]
  · rintro ⟨htexts, hlevels⟩
    induction vs generalizing ws with
    | nil =>
        cases ws with
        | nil => exact .noItems
        | cons w ws => cases htexts
    | cons v vs ih =>
        rcases Nat.max_le.1 hlevels with ⟨hv, hvs⟩
        cases ws with
        | nil => cases htexts
        | cons w ws =>
            rcases List.cons.inj htexts with ⟨hread, hreads⟩
            exact .someItems (((ofBytes_pretty_eq_ok_iff v w).1 hread).of_levels_le hv)
              (ih hreads hvs)

end Json
end SurfaceFeed
