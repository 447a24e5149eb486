/-
TraceFlow.Proofs.Json.Reader — what a reader takes.

A reader moves a cursor over bytes and counts lines and columns for its
messages. When it succeeds, the position is of no interest, so
`Takes r xs ys a` leaves it out: on the input `xs` the reader `r` gives `a`
and leaves `ys`, wherever the cursor stands. The readers of single bytes
have such a fact each, and `Takes.bind`, `Takes.placed` and `Takes.closing`
put them together as the program does.

* White space. A cursor skips it before a value. `Skips r` says that a
  reader does so before anything else, as an equation of two runs; then
  white space in front of what it takes does not matter (`Takes.blanks`).
  This is proved once for the readers that begin with `space` and passed on
  by `Skips.bind`.
* Strings. `Spells xs bs`: the bytes `xs` between quotes stand for `bs`, with
  enough fuel and anything behind the closing quote. One lemma adds a byte
  that stands for itself (`Spells.raw`), another an escape
  (`Spells.escaped`), and `Spells.escapeChar` goes through the ways in which
  a character is written. So `takes_stringBody` reads any text, by induction
  on its characters.
* Numbers. `Decimal n first others` says of digits what the reader computes
  from them, so the induction that makes the digits of a number, last one
  last, is done without the reader (`exists_decimal`). `takes_number` reads
  those of a number that fits a 64-bit word, in front of anything that does
  not go on with them (`Quits`).
-/
import TraceFlow.Json.Reader
import TraceFlow.Json.Value
import TraceFlow.Proofs.Text.Utf8

namespace TraceFlow.Json

/-! ## White space -/

namespace Cursor

def skipped (c : Cursor) : Cursor := behindSpace c.taken c.rest c.left c.left_eq

theorem behindSpace_of_head {xs : List UInt8} (h : ∀ b ∈ xs.head?, isSpace b = false)
    (taken : Place) (left : Nat) (hleft : left = xs.length) :
    behindSpace taken xs left hleft = ⟨xs, left, hleft, taken, true⟩ := by
  cases xs with
  | nil => rfl
  | cons b bs =>
    unfold behindSpace
    rw [if_neg (by rw [h b rfl]; decide)]

theorem skipped_behindSpace (xs : List UInt8) (taken : Place) (left : Nat)
    (hleft : left = xs.length) :
    (behindSpace taken xs left hleft).skipped = behindSpace taken xs left hleft := by
  induction xs generalizing taken left with
  | nil => rfl
  | cons b bs ih =>
    unfold behindSpace
    split
    · exact ih _ _ _
    · rename_i hb
      exact behindSpace_of_head (by simpa using hb) _ _ _

/-- White space that was skipped is not there to be skipped again. -/
theorem skipped_skipped (c : Cursor) : c.skipped.skipped = c.skipped := skipped_behindSpace ..

theorem rest_behindSpace_append {ws xs : List UInt8} (hws : ∀ b ∈ ws, isSpace b)
    (hxs : ∀ b ∈ xs.head?, isSpace b = false) (taken : Place) (left : Nat)
    (hleft : left = (ws ++ xs).length) : (behindSpace taken (ws ++ xs) left hleft).rest = xs := by
  induction ws generalizing taken left with
  | nil => exact congrArg Cursor.rest (behindSpace_of_head hxs taken left hleft)
  | cons w ws ih =>
    obtain ⟨hw, hws⟩ := List.forall_mem_cons.1 hws
    simp only [List.cons_append, behindSpace, hw, if_true]
    exact ih hws _ _ _

end Cursor

namespace Reader

open Utf8

/-! ## Single steps -/

variable {α β : Type} {r : Reader α} {f : α → Reader β} {xs ys zs ws : List UInt8} {a : α} {b : β}

/-- On the input `xs` a reader gives `a` and leaves `ys`, whatever was taken before. -/
def Takes (r : Reader α) (xs ys : List UInt8) (a : α) : Prop :=
  ∀ c : Cursor, c.rest = xs → ∃ c' : Cursor, c'.rest = ys ∧ (r.run c).run = (.ok a, c')

theorem Takes.pure (a : α) (xs : List UInt8) : Takes (pure a) xs xs a :=
  fun c hc => ⟨c, hc, rfl⟩

theorem run_stateM_bind {γ δ : Type} (m : StateM Cursor γ) (k : γ → StateM Cursor δ) (c : Cursor) :
    ((m >>= k) c).run = (k (m c).run.1 (m c).run.2).run := rfl

/-- One reader after the other. -/
theorem Takes.bind (h : Takes r xs ys a) (h' : Takes (f a) ys zs b) : Takes (r >>= f) xs zs b := by
  intro c hc
  obtain ⟨c', hc', hr⟩ := h c hc
  obtain ⟨c'', hc'', hf⟩ := h' c' hc'
  refine ⟨c'', hc'', ?_⟩
  rw [← hf, ExceptT.run_bind, run_stateM_bind, hr]

theorem Takes.map {g : α → β} (h : Takes r xs ys a) : Takes (g <$> r) xs ys (g a) := by
  rw [map_eq_pure_bind]
  exact h.bind (.pure _ _)

theorem Takes.tryCatch {k : Misfit → Reader α} (h : Takes r xs ys a) :
    Takes (tryCatch r k) xs ys a := by
  intro c hc
  obtain ⟨c', hc', hr⟩ := h c hc
  refine ⟨c', hc', ?_⟩
  rw [ExceptT.run_tryCatch, run_stateM_bind, hr]
  rfl

theorem Takes.placed (h : Takes r xs ys a) : Takes (placed r) xs ys a := h.tryCatch

theorem Takes.closing {close : Reader Unit} (h : Takes r xs ys a) (hclose : Takes close ys zs ()) :
    Takes (closing r close) xs zs a :=
  h.tryCatch.bind (hclose.bind (.pure _ _))

theorem takes_look (xs : List UInt8) : Takes look xs xs xs.head? := by
  rintro c rfl
  exact ⟨{ c with looked := true }, rfl, rfl⟩

theorem takes_take (b : UInt8) (xs : List UInt8) : Takes take (b :: xs) xs (some b) := by
  intro c hc
  refine ⟨c.next, ?_, ?_⟩
  · unfold Cursor.next
    split
    · rename_i h
      rw [hc] at h
      cases h
    · rename_i h
      rw [hc] at h
      exact (List.cons.inj h).2.symm
  · show (Except.ok c.rest.head?, c.next) = _
    rw [hc]
    rfl

theorem takes_drop (b : UInt8) (xs : List UInt8) : Takes drop (b :: xs) xs () :=
  (takes_take b xs).bind (.pure _ _)

/-- Where there is no white space the next byte is looked at. -/
theorem takes_space (h : ∀ b ∈ xs.head?, Cursor.isSpace b = false) :
    Takes space xs xs xs.head? := by
  intro c hc
  have hbehind := congrArg Cursor.rest
    (Cursor.behindSpace_of_head (hc ▸ h) c.taken c.left c.left_eq)
  refine ⟨_, hbehind.trans hc, ?_⟩
  exact congrArg (fun xs => (Except.ok (List.head? xs), _)) (hbehind.trans hc)

theorem takes_space_cons {b : UInt8} (h : Cursor.isSpace b = false) (xs : List UInt8) :
    Takes space (b :: xs) (b :: xs) (some b) :=
  takes_space (by simpa using h)

theorem takes_start {b : UInt8} (h : Cursor.isSpace b = false) :
    Takes start (b :: xs) (b :: xs) b :=
  (takes_space_cons h xs).bind (.pure _ _)

theorem takes_fuel (xs : List UInt8) : Takes fuel xs xs (xs.length + 1) := by
  rintro c rfl
  exact ⟨c, rfl, by rw [← c.left_eq]; rfl⟩

theorem takes_word (ws ys : List UInt8) : Takes (word ws) (ws ++ ys) ys () := by
  induction ws with
  | nil => exact .pure _ _
  | cons w ws ih =>
    refine (takes_take w _).bind ?_
    simpa using ih

/-! ## Readers that skip white space -/

/-- The reader looks past white space before it does anything else. -/
def Skips (r : Reader α) : Prop := ∀ c : Cursor, (r.run c).run = (r.run c.skipped).run

namespace Skips

theorem space : Skips Reader.space := by
  intro c
  show (Except.ok c.skipped.rest.head?, c.skipped) =
    (Except.ok c.skipped.skipped.rest.head?, c.skipped.skipped)
  rw [c.skipped_skipped]

theorem bind (h : Skips r) (f : α → Reader β) : Skips (r >>= f) := by
  intro c
  rw [ExceptT.run_bind, run_stateM_bind, run_stateM_bind, h c]

theorem placed (h : Skips r) : Skips (placed r) := by
  intro c
  unfold Reader.placed
  rw [ExceptT.run_tryCatch, run_stateM_bind, run_stateM_bind, h c]

theorem map {g : α → β} (h : Skips r) : Skips (g <$> r) := by
  rw [map_eq_pure_bind]
  exact h.bind _

theorem start : Skips Reader.start := space.bind _

end Skips

/-- What a reader takes, it also takes from behind white space. -/
theorem Takes.blanks (h : Takes r xs ys a) (hr : Skips r)
    (hxs : ∀ b ∈ xs.head?, Cursor.isSpace b = false) (hws : ∀ b ∈ ws, Cursor.isSpace b) :
    Takes r (ws ++ xs) ys a := by
  rintro ⟨rest, left, hleft, taken, looked⟩ rfl
  obtain ⟨c', hc', hrun⟩ := h _ (Cursor.rest_behindSpace_append hws hxs taken left hleft)
  exact ⟨c', hc', (hr _).trans hrun⟩

/-- White space is taken, and what stands behind it is looked at. -/
theorem takes_space_blanks (hxs : ∀ b ∈ xs.head?, Cursor.isSpace b = false)
    (hws : ∀ b ∈ ws, Cursor.isSpace b) : Takes space (ws ++ xs) xs xs.head? :=
  (takes_space hxs).blanks .space hxs hws

/-! ## Strings -/

/-- The bytes `xs` in front of a closing quote stand for the bytes `bs`. -/
def Spells (xs bs : List UInt8) : Prop :=
  ∀ ys n, xs.length < n → Takes (stringBytes n) (xs ++ 0x22 :: ys) ys bs

theorem takes_stringByte (b : UInt8) (xs : List UInt8) : Takes stringByte (b :: xs) xs b :=
  (takes_take b xs).bind (.pure _ _)

namespace Spells

theorem nil : Spells [] [] := by
  intro ys n hn
  obtain ⟨n, rfl⟩ := Nat.exists_eq_add_one_of_ne_zero (Nat.ne_of_gt hn)
  unfold stringBytes
  exact (takes_stringByte 0x22 ys).bind (.pure _ _)

/-- A byte that is no quote, backslash or control character stands for itself. -/
theorem raw {b : UInt8} (hquote : b ≠ 0x22) (hescape : b ≠ 0x5C) (hcontrol : ¬b < 0x20)
    (h : Spells xs ys) : Spells (b :: xs) (b :: ys) := by
  intro zs n hn
  obtain ⟨n, rfl⟩ := Nat.exists_eq_add_one_of_ne_zero (Nat.ne_of_gt (Nat.zero_lt_of_lt hn))
  unfold stringBytes
  refine (takes_stringByte b _).bind ?_
  rw [if_neg hquote, if_neg hescape, if_neg hcontrol]
  exact (h zs n (Nat.lt_of_succ_lt_succ hn)).bind (.pure _ _)

/-- Bytes that stand for themselves, one after the other. -/
theorem rawAll {bs : List UInt8} (hbs : ∀ b ∈ bs, b ≠ 0x22 ∧ b ≠ 0x5C ∧ ¬b < 0x20)
    (h : Spells xs ys) : Spells (bs ++ xs) (bs ++ ys) := by
  induction bs with
  | nil => exact h
  | cons b bs ih =>
    obtain ⟨hquote, hescape, hcontrol⟩ := hbs b List.mem_cons_self
    exact (ih fun c hc => hbs c (List.mem_cons_of_mem _ hc)).raw hquote hescape hcontrol

theorem escaped {es bs : List UInt8} (hescape : ∀ zs, Takes escape (es ++ zs) zs bs)
    (h : Spells xs ys) : Spells (0x5C :: es ++ xs) (bs ++ ys) := by
  intro zs n hn
  obtain ⟨n, rfl⟩ := Nat.exists_eq_add_one_of_ne_zero (Nat.ne_of_gt (Nat.zero_lt_of_lt hn))
  have hlength : xs.length < n := by
    simp only [List.length_cons, List.length_append] at hn
    omega
  unfold stringBytes
  rw [List.append_assoc]
  refine (takes_stringByte 0x5C _).bind ?_
  rw [if_neg (by decide), if_pos rfl]
  exact (hescape _).bind ((h zs n hlength).bind (.pure _ _))

end Spells

/-- The four hex digits of a control character. -/
theorem fill_lowerDigits {n : Nat} (hn : n < 32) :
    ∃ c d, ofChars (Hex.fill 4 (Hex.lowerDigits n)) = [48, 48, c, d] ∧
      hexValue? c = some (n / 16) ∧ hexValue? d = some (n % 16) := by
  have hall : ∀ n : Fin 32,
      let c := UInt8.ofNat (Nat.digitChar (n.val / 16)).toNat
      let d := UInt8.ofNat (Nat.digitChar (n.val % 16)).toNat
      ofChars (Hex.fill 4 (Hex.lowerDigits n)) = [48, 48, c, d] ∧
        hexValue? c = some (n.val / 16) ∧ hexValue? d = some (n.val % 16) := by
    decide
  exact ⟨_, _, hall ⟨n, hn⟩⟩

/-- Four hex digits stand for a control character. -/
theorem takes_hexEscape {n : Nat} (hn : n < 32) (zs : List UInt8) :
    Takes hexEscape (ofChars (Hex.fill 4 (Hex.lowerDigits n)) ++ zs) zs
      (String.utf8EncodeChar (Char.ofNat n)) := by
  obtain ⟨c, d, hdigits, hc, hd⟩ := fill_lowerDigits hn
  have hunit : Takes hexUnit (ofChars (Hex.fill 4 (Hex.lowerDigits n)) ++ zs) zs n := by
    rw [hdigits]
    refine (takes_stringByte 48 _).bind ((takes_stringByte 48 _).bind
      ((takes_stringByte c _).bind ((takes_stringByte d _).bind ?_)))
    have hzero : hexValue? 48 = some 0 := rfl
    rw [hzero, hc, hd]
    have hvalue : 4096 * 0 + 256 * 0 + 16 * (n / 16) + n % 16 = n := by omega
    simp only [hvalue]
    exact .pure _ _
  refine hunit.bind ?_
  rw [if_neg (by omega), if_pos (by omega)]
  exact .pure _ _

/-- The bytes of a character that needs no escape. -/
theorem raw_utf8EncodeChar {c : Char} (hquote : c ≠ '"') (hescape : c ≠ '\\')
    (hcontrol : ¬c.toNat < 0x20) :
    ∀ b ∈ String.utf8EncodeChar c, b ≠ 0x22 ∧ b ≠ 0x5C ∧ ¬b < 0x20 := by
  have hchar : ∀ {d : Char}, c ≠ d → c.toNat ≠ d.toNat := fun hne heq =>
    hne (Char.toNat_inj.1 heq)
  have hbyte : ∀ {b : UInt8}, b.toNat ≠ 0x22 → b.toNat ≠ 0x5C → 0x20 ≤ b.toNat →
      b ≠ 0x22 ∧ b ≠ 0x5C ∧ ¬b < 0x20 := by
    intro b h₁ h₂ h₃
    refine ⟨fun heq => h₁ (by rw [heq]; rfl), fun heq => h₂ (by rw [heq]; rfl), ?_⟩
    rw [UInt8.lt_iff_toNat_lt]
    exact Nat.not_lt.2 h₃
  have hquote := hchar hquote
  have hescape := hchar hescape
  simp only [Char.reduceToNat] at hquote hescape
  intro b hb
  rcases utf8EncodeChar_cases c with ⟨hlow, heq⟩ | ⟨-, hhigh⟩
  · rw [heq, List.mem_singleton] at hb
    have hself : b.toNat = c.toNat := by
      rw [hb, UInt8.toNat_ofNat', Nat.mod_eq_of_lt (by omega)]
    exact hbyte (by omega) (by omega) (by omega)
  · have hb := hhigh b hb
    exact hbyte (by omega) (by omega) (by omega)

/-- A character between quotes stands for itself, however it is written. -/
theorem Spells.escapeChar (c : Char) (h : Spells xs ys) :
    Spells (ofChars (escapeChar c) ++ xs) (String.utf8EncodeChar c ++ ys) := by
  have hletter : ∀ {b : UInt8} {bs : List UInt8},
      (∀ zs, Takes escape (b :: zs) zs bs) → Spells (0x5C :: [b] ++ xs) (bs ++ ys) :=
    fun hescape => h.escaped fun zs => hescape zs
  unfold Json.escapeChar
  split
  · exact hletter fun zs => (takes_stringByte 0x22 zs).bind (.pure _ _)
  · exact hletter fun zs => (takes_stringByte 0x5C zs).bind (.pure _ _)
  · exact hletter fun zs => (takes_stringByte 0x62 zs).bind (.pure _ _)
  · exact hletter fun zs => (takes_stringByte 0x66 zs).bind (.pure _ _)
  · exact hletter fun zs => (takes_stringByte 0x6E zs).bind (.pure _ _)
  · exact hletter fun zs => (takes_stringByte 0x72 zs).bind (.pure _ _)
  · exact hletter fun zs => (takes_stringByte 0x74 zs).bind (.pure _ _)
  · rename_i hquote hslash _ _ _ _ _
    split
    · rename_i hcontrol
      have hescape : ∀ zs, Takes escape
          ((0x75 :: ofChars (Hex.fill 4 (Hex.lowerDigits c.toNat))) ++ zs) zs
          (String.utf8EncodeChar (Char.ofNat c.toNat)) := fun zs =>
        (takes_stringByte 0x75 _).bind (takes_hexEscape hcontrol zs)
      rw [Char.ofNat_toNat] at hescape
      exact h.escaped hescape
    · rename_i hcontrol
      rw [ofChars_cons, ofChars_nil, List.append_nil]
      exact h.rawAll (raw_utf8EncodeChar hquote hslash hcontrol)

/-- Reading the inside of a quoted text gives the text. -/
theorem takes_stringBody (s : String) (ys : List UInt8) :
    Takes stringBody (ofChars (s.toList.flatMap Json.escapeChar) ++ 0x22 :: ys) ys s := by
  have hspells : ∀ cs : List Char, Spells (ofChars (cs.flatMap Json.escapeChar)) (ofChars cs) := by
    intro cs
    induction cs with
    | nil => exact .nil
    | cons c cs ih =>
      rw [List.flatMap_cons, ofChars_append, ofChars_cons]
      exact ih.escapeChar c
  refine (takes_fuel _).bind ((hspells s.toList ys _ ?_).bind ?_)
  · rw [List.length_append]
    omega
  · rw [decode?_ofChars]
    simp only [String.ofList_toList]
    exact .pure _ _

theorem ofChars_quote (s : String) (ys : List UInt8) :
    ofChars (Json.quote s) ++ ys =
      0x22 :: (ofChars (s.toList.flatMap Json.escapeChar) ++ 0x22 :: ys) := by
  rw [Json.quote, ofChars_cons, ofChars_append, List.append_assoc, List.append_assoc]
  rfl

/-! ## Numbers -/

def decimal (n : Nat) : List UInt8 := ofChars (Nat.toDigits 10 n)

theorem decimal_eq (n : Nat) :
    decimal n = if n < 10 then [UInt8.ofNat (48 + n)]
      else decimal (n / 10) ++ [UInt8.ofNat (48 + n % 10)] := by
  have hdigit : ∀ n : Fin 10, ofChars [Nat.digitChar n.val] = [UInt8.ofNat (48 + n.val)] := by
    decide
  unfold decimal
  rw [Nat.toDigits_eq_if (by decide)]
  split
  · rename_i h
    exact hdigit ⟨n, h⟩
  · rw [ofChars_append]
    exact congrArg _ (hdigit ⟨n % 10, Nat.mod_lt _ (by decide)⟩)

/-- The digits of a number: no zero leads them, and taking up all behind the first gives the
number, if it fits a 64-bit word. -/
structure Decimal (n : Nat) (first : UInt8) (others : List UInt8) : Prop where
  digits : isDigit first = true ∧ ∀ b ∈ others, isDigit b = true
  zero : first = 48 → n = 0 ∧ others = []
  run : n < wordSize 64 → ∃ used,
    others.foldl DigitRun.push { value := first.toNat - 48 } = { value := n, used := used }

theorem isDigit_ofNat {n : Nat} (hn : n < 10) :
    isDigit (UInt8.ofNat (48 + n)) = true ∧ (UInt8.ofNat (48 + n)).toNat = 48 + n := by
  have hall : ∀ n : Fin 10, isDigit (UInt8.ofNat (48 + n.val)) = true ∧
      (UInt8.ofNat (48 + n.val)).toNat = 48 + n.val := by decide
  exact hall ⟨n, hn⟩

namespace Decimal

theorem single {n : Nat} (hn : n < 10) : Decimal n (UInt8.ofNat (48 + n)) [] := by
  obtain ⟨hdigit, hvalue⟩ := isDigit_ofNat hn
  refine ⟨⟨hdigit, nofun⟩, fun hzero => ?_, fun _ => ⟨0, ?_⟩⟩
  · have hnat := congrArg UInt8.toNat hzero
    rw [hvalue] at hnat
    have h48 : (48 : UInt8).toNat = 48 := rfl
    exact ⟨by omega, rfl⟩
  · rw [hvalue, Nat.add_sub_cancel_left]
    rfl

theorem snoc {n : Nat} {first : UInt8} {others : List UInt8} (hn : 10 ≤ n)
    (h : Decimal (n / 10) first others) :
    Decimal n first (others ++ [UInt8.ofNat (48 + n % 10)]) := by
  obtain ⟨hdigit, hvalue⟩ := isDigit_ofNat (Nat.mod_lt n (by decide : 10 > 0))
  refine ⟨⟨h.digits.1, fun b hb => ?_⟩, fun hzero => ?_, fun hlt => ?_⟩
  · rcases List.mem_append.1 hb with hb | hb
    · exact h.digits.2 b hb
    · rw [List.mem_singleton.1 hb]
      exact hdigit
  · have hquotient := (h.zero hzero).1
    omega
  · obtain ⟨used, hrun⟩ := h.run (by omega)
    have hnumber : 10 * (n / 10) + (48 + n % 10 - 48) = n := by omega
    refine ⟨used + 1, ?_⟩
    rw [List.foldl_append, hrun, List.foldl_cons, List.foldl_nil, DigitRun.push, hvalue]
    simp only [hnumber]
    rw [if_pos ⟨trivial, hlt⟩]

end Decimal

/-- Every number has its digits: by recursion on the number, last digit last. -/
theorem exists_decimal (n : Nat) : ∃ first others, decimal n = first :: others ∧
    Decimal n first others := by
  induction n using Nat.strongRecOn with
  | ind n ih =>
    rw [decimal_eq]
    split
    · rename_i hn
      exact ⟨_, [], rfl, .single hn⟩
    · obtain ⟨first, others, heq, h⟩ := ih (n / 10) (by omega)
      exact ⟨first, _, by rw [heq]; rfl, h.snoc (by omega)⟩

/-- What follows a number does not go on with it. -/
def Quits (ys : List UInt8) : Prop :=
  ∀ b ∈ ys.head?, isDigit b = false ∧ b ≠ 0x2E ∧ b ≠ 0x65 ∧ b ≠ 0x45

theorem quits_cons {b : UInt8} (h : isDigit b = false ∧ b ≠ 0x2E ∧ b ≠ 0x65 ∧ b ≠ 0x45)
    (xs : List UInt8) : Quits (b :: xs) := by
  simpa [Quits] using h

/-- Digits are taken up to what is none, by induction on them. -/
theorem takes_digits (hys : Quits ys) :
    ∀ (ds : List UInt8) (fuel : Nat) (run : DigitRun), (∀ b ∈ ds, isDigit b = true) →
      ds.length < fuel → Takes (digits fuel run) (ds ++ ys) ys (ds.foldl DigitRun.push run)
  | [], fuel + 1, run, _, _ => by
    unfold digits
    refine (takes_look ys).bind ?_
    cases ys with
    | nil => exact .pure _ _
    | cons b bs =>
      have hb := (hys b rfl).1
      simp only [List.head?_cons, hb]
      exact .pure _ _
  | d :: ds, fuel + 1, run, hds, hfuel => by
    unfold digits
    refine (takes_look _).bind ?_
    have hd := hds d List.mem_cons_self
    simp only [List.cons_append, List.head?_cons, hd, if_true]
    refine (takes_drop d _).bind ?_
    exact takes_digits hys ds fuel (run.push d) (fun b hb => hds b (List.mem_cons_of_mem _ hb))
      (Nat.lt_of_succ_lt_succ hfuel)

theorem takes_afterWhole (hys : Quits ys) (n used : Nat) :
    Takes (afterWhole false { value := n, used := used }) ys ys (.whole n) := by
  unfold afterWhole
  refine (takes_look ys).bind ?_
  have hpoint : ys.head? ≠ some 0x2E := fun heq => (hys _ heq).2.1 rfl
  have hexponent : isExponent ys.head? = false := by
    unfold isExponent
    simp only [Bool.or_eq_false_iff, decide_eq_false_iff_not]
    exact ⟨fun heq => (hys _ heq).2.2.1 rfl, fun heq => (hys _ heq).2.2.2 rfl⟩
  simp only [hpoint, hexponent, if_false]
  exact .pure _ _

/-- Reading the digits of a number gives the number. -/
theorem takes_number {n : Nat} (hn : n < wordSize 64) (hys : Quits ys) :
    Takes (number false) (decimal n ++ ys) ys (.whole n) := by
  obtain ⟨first, others, heq, h⟩ := exists_decimal n
  rw [heq]
  unfold number
  refine (takes_take first _).bind ?_
  by_cases hzero : first = 48
  · obtain ⟨rfl, rfl⟩ := h.zero hzero
    simp only [hzero, if_true]
    refine (takes_look _).bind ?_
    cases ys with
    | nil => exact takes_afterWhole hys 0 0
    | cons b bs =>
      have hb := (hys b rfl).1
      show Takes
        (if isDigit b = true then fail Fault.badNumber else afterWhole false { value := 0 })
        (b :: bs) (b :: bs) _
      rw [if_neg (by rw [hb]; decide)]
      exact takes_afterWhole hys 0 0
  · obtain ⟨used, hrun⟩ := h.run hn
    simp only [hzero, h.digits.1, if_false, if_true]
    refine (takes_fuel _).bind ((takes_digits hys others _ _ h.digits.2 ?_).bind ?_)
    · show others.length < (others ++ ys).length + 1
      rw [List.length_append]
      omega
    · rw [hrun]
      exact takes_afterWhole hys n used

end Reader

end TraceFlow.Json
