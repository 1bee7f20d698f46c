/-
Texts that are written and read back.

A text is written as it is, and when it is read back its line ends are made uniform.  So it is the
same text again if it has no carriage return, and whatever has been read as a text has none.

The encoder puts the bits of a character into one to four bytes, and the decoder asks of the second
byte what keeps out the codes that have a shorter form, those of surrogates and those that are too
large.  A character has none of these codes, so each of the four shapes is decoded to the character
that it was made from.
-/
import ConversionClosure.File.Utf8

namespace ConversionClosure

/-- There is no carriage return in the text. -/
def NoReturn (text : String) : Prop := '\r' ∉ text.toList

instance (text : String) : Decidable (NoReturn text) := inferInstanceAs (Decidable (_ ∉ _))

namespace Utf8

variable {c : Char} {rest : List UInt8} {position : Nat}

/-! ### One character -/

/-- Bytes that belong to a character are passed over. -/
theorem decodeFrom_skip (position : Nat) (bytes rest : List UInt8) :
    decodeFrom position bytes.length (bytes ++ rest) =
      decodeFrom (position + bytes.length) 0 rest := by
  induction bytes generalizing position with
  | nil => rfl
  | cons b bytes ih =>
      rw [List.length_cons, List.cons_append, decodeFrom, if_pos (Nat.succ_pos _),
        Nat.add_sub_cancel, ih, Nat.add_right_comm, Nat.add_assoc]

/-- A byte below 128 is a character. -/
theorem decodeFrom_one {b : UInt8} (hb : b.toNat = c.toNat) (h : c.toNat < 0x80) :
    decodeFrom position 0 (b :: rest) = (decodeFrom (position + 1) 0 rest).map (c :: ·) := by
  rw [decodeFrom, if_neg (Nat.lt_irrefl 0), if_pos (hb ▸ h), hb, Char.ofNat_toNat]

/-- A first byte announces those after it, which have the rest of the bits. -/
theorem decodeFrom_lead (more : List UInt8) {b : UInt8} {n low high : Nat} (hb : b.toNat = n)
    (hn : 0x80 ≤ n) (hlead : lead? n = some ⟨low, high, more.length⟩)
    (hmore : continue? (leadBits n more.length) 1 low high more.length (more ++ rest) =
      .ok c.toNat) :
    decodeFrom position 0 (b :: (more ++ rest)) =
      (decodeFrom (position + 1 + more.length) 0 rest).map (c :: ·) := by
  rw [decodeFrom, if_neg (Nat.lt_irrefl 0), hb, if_neg (Nat.not_lt.mpr hn), hlead]
  simp only [hmore, Char.ofNat_toNat]
  rw [decodeFrom_skip]

theorem continue?_zero (code read low high : Nat) (bytes : List UInt8) :
    continue? code read low high 0 bytes = .ok code := by
  cases bytes <;> rfl

/-- A byte between the bounds adds its six bits. -/
theorem continue?_succ {code read low high count n : Nat} {b : UInt8} {bytes : List UInt8}
    (hb : b.toNat = n) (hlow : low ≤ n) (hhigh : n ≤ high) :
    continue? code read low high (count + 1) (b :: bytes) =
      continue? (code * 64 + n % 64) (read + 1) 0x80 0xbf count bytes := by
  rw [continue?, hb, if_pos ⟨hlow, hhigh⟩]

theorem toNat_ofNat {n : Nat} (h : n < 256) : (UInt8.ofNat n).toNat = n := by
  rw [UInt8.toNat_ofNat']
  exact Nat.mod_eq_of_lt h

/-- No character has the code of a surrogate, or one that is too large. -/
theorem toNat_bounds (c : Char) : c.toNat < 0xd800 ∨ 0xdfff < c.toNat ∧ c.toNat < 0x110000 :=
  c.valid

/-- The first of three bytes leaves room for the second one. -/
theorem exists_lead_three {v : Nat} (hlow : 0x800 ≤ v) (hhigh : v < 0x10000)
    (hsurrogate : v < 0xd800 ∨ 0xdfff < v) : ∃ low high,
    lead? (v / 4096 + 224) = some ⟨low, high, 2⟩ ∧
      low ≤ v / 64 % 64 + 128 ∧ v / 64 % 64 + 128 ≤ high := by
  rw [lead?, if_neg (by omega), if_neg (by omega)]
  by_cases hfirst : v / 4096 + 224 = 0xe0
  · rw [if_pos hfirst]
    exact ⟨_, _, rfl, by omega, by omega⟩
  rw [if_neg hfirst]
  by_cases hbefore : v / 4096 + 224 = 0xed
  · rw [if_pos hbefore]
    exact ⟨_, _, rfl, by omega, by omega⟩
  rw [if_neg hbefore, if_pos (by omega)]
  exact ⟨_, _, rfl, by omega, by omega⟩

/-- The first of four bytes leaves room for the second one. -/
theorem exists_lead_four {v : Nat} (hlow : 0x10000 ≤ v) (hhigh : v < 0x110000) : ∃ low high,
    lead? (v / 262144 + 240) = some ⟨low, high, 3⟩ ∧
      low ≤ v / 4096 % 64 + 128 ∧ v / 4096 % 64 + 128 ≤ high := by
  rw [lead?, if_neg (by omega), if_neg (by omega), if_neg (by omega), if_neg (by omega),
    if_neg (by omega)]
  by_cases hfirst : v / 262144 + 240 = 0xf0
  · rw [if_pos hfirst]
    exact ⟨_, _, rfl, by omega, by omega⟩
  rw [if_neg hfirst]
  by_cases hlast : v / 262144 + 240 < 0xf4
  · rw [if_pos hlast]
    exact ⟨_, _, rfl, by omega, by omega⟩
  rw [if_neg hlast, if_pos (by omega)]
  exact ⟨_, _, rfl, by omega, by omega⟩

/-- **A character is decoded from the bytes that it is encoded to.** -/
theorem decodeFrom_utf8EncodeChar (c : Char) (rest : List UInt8) (position : Nat) :
    ∃ position', decodeFrom position 0 (String.utf8EncodeChar c ++ rest) =
      (decodeFrom position' 0 rest).map (c :: ·) := by
  have hbounds := toNat_bounds c
  have hval : c.val.toNat = c.toNat := rfl
  unfold String.utf8EncodeChar
  simp only [hval]
  generalize hv : c.toNat = v at hbounds
  have hlow : (UInt8.ofNat (v % 64 + 128)).toNat = v % 64 + 128 := toNat_ofNat (by omega)
  have hmiddle : (UInt8.ofNat (v / 64 % 64 + 128)).toNat = v / 64 % 64 + 128 :=
    toNat_ofNat (by omega)
  have hhigh : (UInt8.ofNat (v / 4096 % 64 + 128)).toNat = v / 4096 % 64 + 128 :=
    toNat_ofNat (by omega)
  split
  · exact ⟨_, decodeFrom_one (by rw [toNat_ofNat (by omega), hv]) (by omega)⟩
  split
  · have hfirst : (UInt8.ofNat (v / 64 % 32 + 192)).toNat = v / 64 + 192 := by
      rw [toNat_ofNat (by omega)]
      omega
    have hlead : lead? (v / 64 + 192) = some ⟨0x80, 0xbf, 1⟩ := by
      rw [lead?, if_neg (by omega), if_pos (by omega)]
    refine ⟨_, decodeFrom_lead [_] hfirst (by omega) hlead ?_⟩
    rw [List.length_singleton, List.singleton_append, continue?_succ hlow (by omega) (by omega),
      continue?_zero, leadBits, Nat.pow_eq, hv]
    exact congrArg Except.ok (by omega)
  split
  · have hfirst : (UInt8.ofNat (v / 4096 % 16 + 224)).toNat = v / 4096 + 224 := by
      rw [toNat_ofNat (by omega)]
      omega
    obtain ⟨low, high, hlead, hbelow, habove⟩ :=
      @exists_lead_three v (by omega) (by omega) (by omega)
    refine ⟨_, decodeFrom_lead [_, _] hfirst (by omega) hlead ?_⟩
    show continue? _ 1 low high (1 + 1) (_ :: _ :: rest) = _
    rw [continue?_succ hmiddle hbelow habove, continue?_succ hlow (by omega) (by omega),
      continue?_zero, leadBits, Nat.pow_eq, hv]
    exact congrArg Except.ok (by simp only [List.length_cons, List.length_nil]; omega)
  · have hfirst : (UInt8.ofNat (v / 262144 % 8 + 240)).toNat = v / 262144 + 240 := by
      rw [toNat_ofNat (by omega)]
      omega
    obtain ⟨low, high, hlead, hbelow, habove⟩ := @exists_lead_four v (by omega) (by omega)
    refine ⟨_, decodeFrom_lead [_, _, _] hfirst (by omega) hlead ?_⟩
    show continue? _ 1 low high (1 + 1 + 1) (_ :: _ :: _ :: rest) = _
    rw [continue?_succ hhigh hbelow habove, continue?_succ hmiddle (by omega) (by omega),
      continue?_succ hlow (by omega) (by omega), continue?_zero, leadBits, Nat.pow_eq, hv]
    exact congrArg Except.ok (by simp only [List.length_cons, List.length_nil]; omega)

/-! ### Whole texts -/

theorem toList_loop (bytes : ByteArray) (i : Nat) (done : List UInt8) :
    ByteArray.toList.loop bytes i done = done.reverse ++ bytes.data.toList.drop i := by
  fun_induction ByteArray.toList.loop bytes i done with
  | case1 i done hi ih =>
      have hlength : i < bytes.data.toList.length := by simpa using hi
      have hget : bytes.get! i = bytes.data.toList[i] := getElem!_pos bytes.data i hi
      rw [ih, List.reverse_cons, List.append_assoc, List.drop_eq_getElem_cons hlength, hget]
      rfl
  | case2 i done hi =>
      rw [List.drop_eq_nil_of_le (by simpa using Nat.le_of_not_lt hi), List.append_nil]

/-- A text is encoded character by character. -/
theorem encode_eq (text : String) : encode text = text.toList.flatMap String.utf8EncodeChar := by
  show ByteArray.toList.loop text.toByteArray 0 [] = _
  rw [toList_loop, ← String.utf8Encode_toList, List.utf8Encode, List.toList_data_toByteArray]
  rfl

/-- What is encoded is decoded. -/
theorem decode_encode (text : String) : decode (encode text) = .ok text.toList := by
  have hfrom : ∀ (cs : List Char) (position : Nat),
      decodeFrom position 0 (cs.flatMap String.utf8EncodeChar) = .ok cs := by
    intro cs
    induction cs with
    | nil => exact fun _ => rfl
    | cons c cs ih =>
        intro position
        obtain ⟨position', hfirst⟩ :=
          decodeFrom_utf8EncodeChar c (cs.flatMap String.utf8EncodeChar) position
        rw [List.flatMap_cons, hfirst, ih]
        rfl
  rw [encode_eq]
  exact hfrom _ 0

/-! ### Line ends -/

theorem not_mem_uniformBreaks (cs : List Char) : '\r' ∉ uniformBreaks cs := by
  fun_induction uniformBreaks cs with
  | case1 => simp
  | case2 cs ih => simpa using ih
  | case3 cs _ ih => simpa using ih
  | case4 c cs _ hreturn ih => simpa using ⟨fun h => hreturn h.symm, ih⟩

theorem uniformBreaks_eq {cs : List Char} (h : '\r' ∉ cs) : uniformBreaks cs = cs := by
  fun_induction uniformBreaks cs with
  | case1 => rfl
  | case2 cs ih => simp at h
  | case3 cs _ ih => simp at h
  | case4 c cs _ _ ih => rw [ih fun hmem => h (List.mem_cons_of_mem c hmem)]

/-- What is read has no carriage return. -/
theorem noReturn_of_readText {bytes : List UInt8} {text : String}
    (h : readText bytes = .ok text) : NoReturn text := by
  unfold readText at h
  cases hdecode : decode bytes with
  | error fault =>
      rw [hdecode] at h
      cases h
  | ok cs =>
      rw [hdecode] at h
      obtain rfl := Except.ok.inj h
      rw [NoReturn, String.toList_ofList]
      exact not_mem_uniformBreaks cs

/-- **A text without carriage returns is read as it was written.** -/
theorem readText_encode {text : String} (h : NoReturn text) :
    readText (encode text) = .ok text := by
  rw [readText, decode_encode, Except.map, uniformBreaks_eq h, String.ofList_toList]

end Utf8

end ConversionClosure
