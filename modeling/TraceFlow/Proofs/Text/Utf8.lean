/-
TraceFlow.Proofs.Text.Utf8 — decoding undoes encoding.

The decoder goes byte by byte and keeps the sequence that is open: how many
bytes are to come, in which range the next one has to lie, and the bits so
far. The encoder is the standard one. So the proof follows a character
through one to four steps of the decoder.

* The first byte opens a sequence (`piecesFrom_lead`); what it opens is
  settled by its range, with narrower ranges for the second byte at both
  ends of three and four bytes (`lead_three`, `lead_four`), which exclude
  surrogates and numbers beyond the last code point.
* Every other byte adds six bits (`piecesFrom_more`, `piecesFrom_last`).
  That the bits add up to the code point again is arithmetic with
  quotients and remainders, one lemma for each number of bytes
  (`piecesFrom_two`, `piecesFrom_three`, `piecesFrom_four`).
* `piecesFrom_utf8EncodeChar` puts them together by the cases of the
  encoder, in front of any bytes. So whole texts follow by induction
  (`pieces_ofChars`, `decode?_ofChars`), and no two texts have the same
  bytes (`encode_injective`).
-/
import TraceFlow.Text.Utf8

namespace TraceFlow.Utf8

/-- The bytes of a sequence of characters. -/
def ofChars (cs : List Char) : List UInt8 := cs.flatMap String.utf8EncodeChar

@[simp] theorem ofChars_nil : ofChars [] = [] := rfl

@[simp] theorem ofChars_cons (c : Char) (cs : List Char) :
    ofChars (c :: cs) = String.utf8EncodeChar c ++ ofChars cs := List.flatMap_cons

@[simp] theorem ofChars_append (cs ds : List Char) :
    ofChars (cs ++ ds) = ofChars cs ++ ofChars ds := List.flatMap_append

theorem toList_byteArray (bs : ByteArray) : bs.toList = bs.data.toList := by
  have hloop : ∀ i r, ByteArray.toList.loop bs i r = r.reverse ++ bs.data.toList.drop i := by
    intro i r
    fun_induction ByteArray.toList.loop bs i r with
    | case1 i r hlt ih =>
      have hlt : i < bs.data.toList.length := by simpa using hlt
      have hget : bs.get! i = bs.data.toList[i] := by
        simpa [ByteArray.get!] using getElem!_pos bs.data i (by simpa using hlt)
      rw [ih, List.drop_eq_getElem_cons hlt, hget]
      simp
    | case2 i r hge =>
      rw [List.drop_eq_nil_of_le (by simpa using Nat.le_of_not_lt hge), List.append_nil]
  exact hloop 0 []

theorem encode_ofList (cs : List Char) : encode (String.ofList cs) = ofChars cs := by
  rw [encode, String.toUTF8_eq_toByteArray, String.toByteArray_ofList, toList_byteArray]
  exact List.toList_data_toByteArray

/-! ## One character -/

/-- A first byte of several opens a sequence. -/
theorem piecesFrom_lead {b : UInt8} {s : Begun} (h : lead b.toNat = .begins s) (bs : List UInt8) :
    piecesFrom none (b :: bs) = piecesFrom (some s) bs := by
  simp [piecesFrom, step, start, h]

/-- A byte in its range that is not the last adds six bits. -/
theorem piecesFrom_more {b : UInt8} {k low high bits : Nat} (hlow : low ≤ b.toNat)
    (hhigh : b.toNat ≤ high) (bs : List UInt8) :
    piecesFrom (some ⟨k + 2, low, high, bits⟩) (b :: bs) =
      piecesFrom (some ⟨k + 1, 0x80, 0xBF, 64 * bits + b.toNat % 64⟩) bs := by
  simp [piecesFrom, step, hlow, hhigh]

/-- The last one gives the character. -/
theorem piecesFrom_last {b : UInt8} {low high bits : Nat} (hlow : low ≤ b.toNat)
    (hhigh : b.toNat ≤ high) (bs : List UInt8) :
    piecesFrom (some ⟨1, low, high, bits⟩) (b :: bs) =
      some (Char.ofNat (64 * bits + b.toNat % 64)) :: piecesFrom none bs := by
  simp [piecesFrom, step, hlow, hhigh]

theorem lead_two {b : Nat} (hlow : 0xC2 ≤ b) (hhigh : b ≤ 0xDF) :
    lead b = .begins ⟨1, 0x80, 0xBF, b - 0xC0⟩ := by
  have h₁ : ¬b < 0x80 := by omega
  have h₂ : ¬b < 0xC2 := by omega
  have h₃ : b < 0xE0 := by omega
  simp [lead, h₁, h₂, h₃]

/-- The first of three bytes, and what the second one may be: no shorter sequence writes the
character, and it is no half of a pair. -/
theorem lead_three {v : Nat} (hlow : 0x800 ≤ v) (hhigh : v ≤ 0xFFFF)
    (hpair : v < 0xD800 ∨ 0xDFFF < v) :
    ∃ low high, lead (v / 4096 + 0xE0) = .begins ⟨2, low, high, v / 4096⟩ ∧
      low ≤ v / 64 % 64 + 0x80 ∧ v / 64 % 64 + 0x80 ≤ high := by
  have h₁ : ¬v / 4096 + 0xE0 < 0x80 := by omega
  have h₂ : ¬v / 4096 + 0xE0 < 0xC2 := by omega
  have h₃ : ¬v / 4096 + 0xE0 < 0xE0 := by omega
  have h₄ : v / 4096 + 0xE0 < 0xF0 := by omega
  by_cases hE0 : v / 4096 = 0
  · exact ⟨0xA0, 0xBF, by simp [lead, hE0], by omega, by omega⟩
  · by_cases hED : v / 4096 = 0xD
    · exact ⟨0x80, 0x9F, by simp [lead, hED], by omega, by omega⟩
    · exact ⟨0x80, 0xBF, by simp [lead, h₁, h₂, h₃, h₄, hE0, hED], by omega, by omega⟩

/-- The first of four bytes, and what the second one may be: no shorter sequence writes the
character, and there is such a character. -/
theorem lead_four {v : Nat} (hlow : 0x10000 ≤ v) (hhigh : v < 0x110000) :
    ∃ low high, lead (v / 262144 + 0xF0) = .begins ⟨3, low, high, v / 262144⟩ ∧
      low ≤ v / 4096 % 64 + 0x80 ∧ v / 4096 % 64 + 0x80 ≤ high := by
  have h₁ : ¬v / 262144 + 0xF0 < 0x80 := by omega
  have h₂ : ¬v / 262144 + 0xF0 < 0xC2 := by omega
  have h₃ : ¬v / 262144 + 0xF0 < 0xE0 := by omega
  have h₄ : ¬v / 262144 + 0xF0 < 0xF0 := by omega
  by_cases hF0 : v / 262144 = 0
  · exact ⟨0x90, 0xBF, by simp [lead, hF0], by omega, by omega⟩
  · by_cases hF4 : v / 262144 = 4
    · exact ⟨0x80, 0x8F, by simp [lead, hF4], by omega, by omega⟩
    · have h₅ : v / 262144 + 0xF0 < 0xF4 := by omega
      have h₆ : v / 262144 + 0xF0 ≠ 0xE0 := by omega
      have h₇ : v / 262144 + 0xF0 ≠ 0xED := by omega
      exact ⟨0x80, 0xBF, by simp [lead, h₁, h₂, h₃, h₅, h₆, h₇, hF0], by omega, by omega⟩

theorem toNat_more (n : Nat) : (UInt8.ofNat (n % 64 + 0x80)).toNat = n % 64 + 0x80 := by
  rw [UInt8.toNat_ofNat', Nat.mod_eq_of_lt (by omega)]

theorem piecesFrom_two {v : Nat} (hlow : 0x80 ≤ v) (hhigh : v ≤ 0x7FF) (bs : List UInt8) :
    piecesFrom none (UInt8.ofNat (v / 64 % 0x20 + 0xC0) :: UInt8.ofNat (v % 64 + 0x80) :: bs) =
      some (Char.ofNat v) :: piecesFrom none bs := by
  have hfirst : (UInt8.ofNat (v / 64 % 0x20 + 0xC0)).toNat = v / 64 + 0xC0 := by
    rw [UInt8.toNat_ofNat']
    omega
  have hlead : lead (UInt8.ofNat (v / 64 % 0x20 + 0xC0)).toNat =
      .begins ⟨1, 0x80, 0xBF, v / 64⟩ := by
    rw [hfirst, lead_two (by omega) (by omega), Nat.add_sub_cancel]
  have hlast := toNat_more v
  have hbits : 64 * (v / 64) + (v % 64 + 0x80) % 64 = v := by omega
  rw [piecesFrom_lead hlead, piecesFrom_last (by omega) (by omega), hlast, hbits]

theorem piecesFrom_three {v : Nat} (hlow : 0x800 ≤ v) (hhigh : v ≤ 0xFFFF)
    (hpair : v < 0xD800 ∨ 0xDFFF < v) (bs : List UInt8) :
    piecesFrom none (UInt8.ofNat (v / 4096 % 0x10 + 0xE0) :: UInt8.ofNat (v / 64 % 64 + 0x80) ::
      UInt8.ofNat (v % 64 + 0x80) :: bs) = some (Char.ofNat v) :: piecesFrom none bs := by
  have hfirst : (UInt8.ofNat (v / 4096 % 0x10 + 0xE0)).toNat = v / 4096 + 0xE0 := by
    rw [UInt8.toNat_ofNat']
    omega
  obtain ⟨low, high, hlead, hlow₁, hhigh₁⟩ := lead_three hlow hhigh hpair
  rw [← hfirst] at hlead
  have hmore := toNat_more (v / 64)
  have hlast := toNat_more v
  have hbits : 64 * (64 * (v / 4096) + (v / 64 % 64 + 0x80) % 64) + (v % 64 + 0x80) % 64 = v := by
    omega
  rw [piecesFrom_lead hlead, piecesFrom_more (k := 0) (by omega) (by omega),
    piecesFrom_last (by omega) (by omega), hmore, hlast, hbits]

theorem piecesFrom_four {v : Nat} (hlow : 0x10000 ≤ v) (hhigh : v < 0x110000) (bs : List UInt8) :
    piecesFrom none (UInt8.ofNat (v / 262144 % 0x08 + 0xF0) :: UInt8.ofNat (v / 4096 % 64 + 0x80) ::
      UInt8.ofNat (v / 64 % 64 + 0x80) :: UInt8.ofNat (v % 64 + 0x80) :: bs) =
      some (Char.ofNat v) :: piecesFrom none bs := by
  have hfirst : (UInt8.ofNat (v / 262144 % 0x08 + 0xF0)).toNat = v / 262144 + 0xF0 := by
    rw [UInt8.toNat_ofNat']
    omega
  obtain ⟨low, high, hlead, hlow₁, hhigh₁⟩ := lead_four hlow hhigh
  rw [← hfirst] at hlead
  have hmore₁ := toNat_more (v / 4096)
  have hmore₂ := toNat_more (v / 64)
  have hlast := toNat_more v
  have hbits : 64 * (64 * (64 * (v / 262144) + (v / 4096 % 64 + 0x80) % 64) +
      (v / 64 % 64 + 0x80) % 64) + (v % 64 + 0x80) % 64 = v := by omega
  rw [piecesFrom_lead hlead, piecesFrom_more (k := 1) (by omega) (by omega),
    piecesFrom_more (k := 0) (by omega) (by omega), piecesFrom_last (by omega) (by omega),
    hmore₁, hmore₂, hlast, hbits]

/-- Reading the bytes of a character gives the character. -/
theorem piecesFrom_utf8EncodeChar (c : Char) (bs : List UInt8) :
    piecesFrom none (String.utf8EncodeChar c ++ bs) = some c :: piecesFrom none bs := by
  have hchar : Char.ofNat c.val.toNat = c := Char.ofNat_toNat c
  have hvalid : c.val.toNat < 0xD800 ∨ 0xDFFF < c.val.toNat ∧ c.val.toNat < 0x110000 := c.valid
  unfold String.utf8EncodeChar
  dsimp only
  generalize c.val.toNat = v at *
  subst hchar
  split
  · have hself : (UInt8.ofNat v).toNat = v := by
      rw [UInt8.toNat_ofNat', Nat.mod_eq_of_lt (by omega)]
    show piecesFrom none (UInt8.ofNat v :: bs) = _
    rw [piecesFrom_none_ascii (by omega), hself]
  · split
    · exact piecesFrom_two (by omega) (by omega) bs
    · split
      · exact piecesFrom_three (by omega) (by omega) (by omega) bs
      · exact piecesFrom_four (by omega) (by omega) bs

/-- A character is one byte below 0x80, or several above. -/
theorem utf8EncodeChar_cases (c : Char) :
    c.toNat < 0x80 ∧ String.utf8EncodeChar c = [UInt8.ofNat c.toNat] ∨
      0x80 ≤ c.toNat ∧ ∀ b ∈ String.utf8EncodeChar c, 0x80 ≤ b.toNat := by
  have hvalid : c.val.toNat < 0xD800 ∨ 0xDFFF < c.val.toNat ∧ c.val.toNat < 0x110000 := c.valid
  unfold String.utf8EncodeChar Char.toNat
  dsimp only
  generalize c.val.toNat = v at *
  split
  · exact .inl ⟨by omega, rfl⟩
  · refine .inr ⟨by omega, fun b hb => ?_⟩
    split at hb
    · simp only [List.mem_cons, List.not_mem_nil, or_false] at hb
      rcases hb with rfl | rfl <;> rw [UInt8.toNat_ofNat'] <;> omega
    · split at hb
      · simp only [List.mem_cons, List.not_mem_nil, or_false] at hb
        rcases hb with rfl | rfl | rfl <;> rw [UInt8.toNat_ofNat'] <;> omega
      · simp only [List.mem_cons, List.not_mem_nil, or_false] at hb
        rcases hb with rfl | rfl | rfl | rfl <;> rw [UInt8.toNat_ofNat'] <;> omega

/-! ## Texts -/

/-- A text is read character by character: by induction on them. -/
theorem pieces_ofChars (cs : List Char) : pieces (ofChars cs) = cs.map some := by
  unfold pieces
  induction cs with
  | nil => rfl
  | cons c cs ih => rw [ofChars_cons, piecesFrom_utf8EncodeChar, ih, List.map_cons]

/-- Decoding the bytes of characters gives the characters. -/
theorem decode?_ofChars (cs : List Char) : decode? (ofChars cs) = some cs := by
  rw [decode?, pieces_ofChars]
  induction cs with
  | nil => rfl
  | cons c cs ih =>
    rw [List.map_cons, List.mapM_cons, ih]
    rfl

theorem encode_injective : Function.Injective encode := by
  intro a b h
  rw [← String.ofList_toList (s := a), ← String.ofList_toList (s := b), encode_ofList,
    encode_ofList] at h
  have hchars := congrArg decode? h
  rw [decode?_ofChars, decode?_ofChars, Option.some.injEq] at hchars
  exact String.toList_inj.1 hchars

end TraceFlow.Utf8
