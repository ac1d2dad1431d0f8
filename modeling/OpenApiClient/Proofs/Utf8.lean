import Mathlib.Tactic.SplitIfs
import OpenApiClient.Text.Utf8

/-!
# Bytes that are a text

A row of bytes is read as a text exactly if it is the UTF-8 of that text.
-/

namespace OpenApiClient.Text

/-- Which bytes start a character, and what may follow them. -/
theorem continuation?_eq_some_iff {b : UInt8} {more low high : Nat} :
    continuation? b = some (more, low, high) ↔
      more = 1 ∧ 0xc2 ≤ b.toNat ∧ b.toNat ≤ 0xdf ∧ low = 0x80 ∧ high = 0xbf ∨
      more = 2 ∧ 0xe0 ≤ b.toNat ∧ b.toNat ≤ 0xef ∧
        low = (if b.toNat = 0xe0 then 0xa0 else 0x80) ∧
        high = (if b.toNat = 0xed then 0x9f else 0xbf) ∨
      more = 3 ∧ 0xf0 ≤ b.toNat ∧ b.toNat ≤ 0xf4 ∧
        low = (if b.toNat = 0xf0 then 0x90 else 0x80) ∧
        high = (if b.toNat = 0xf4 then 0x8f else 0xbf) := by
  unfold continuation?
  simp only [Bool.and_eq_true, decide_eq_true_eq]
  repeat' split
  all_goals first
    | simp only [Option.some.injEq, Prod.mk.injEq]
      omega
    | simp only [reduceCtorEq, false_iff]
      omega

theorem continuationBytes_succ_eq_ok_iff {more low high read value w : Nat} {bytes : List UInt8} :
    continuationBytes (more + 1) low high read value bytes = .ok w ↔
      ∃ b rest, bytes = b :: rest ∧ low ≤ b.toNat ∧ b.toNat ≤ high ∧
        continuationBytes more 0x80 0xbf (read + 1) (value * 64 + b.toNat % 64) rest = .ok w := by
  constructor
  · intro h
    cases bytes with
    | nil => cases h
    | cons b rest =>
        rw [continuationBytes] at h
        split at h
        · next hb =>
            rw [Bool.and_eq_true, decide_eq_true_eq, decide_eq_true_eq] at hb
            exact ⟨b, rest, rfl, hb.1, hb.2, h⟩
        · cases h
  · rintro ⟨b, rest, rfl, hlow, hhigh, h⟩
    rw [continuationBytes, if_pos (by simp [hlow, hhigh]), h]

/-- The bytes of a character that was read are passed over. -/
theorem decodeFrom_append (bs rest : List UInt8) (position : Nat) :
    decodeFrom position bs.length (bs ++ rest) = decodeFrom (position + bs.length) 0 rest := by
  induction bs generalizing position with
  | nil => rfl
  | cons b bs ih =>
      rw [List.length_cons, List.cons_append, decodeFrom, ih, Nat.add_right_comm, Nat.add_assoc]

/-- A first byte and the bytes that follow it are read as one character. -/
theorem decodeFrom_cons {b : UInt8} {bs rest : List UInt8} {low high value : Nat}
    (hcontinuation : continuation? b = some (bs.length, low, high))
    (hvalue : continuationBytes bs.length low high 0 (leadBits bs.length b) (bs ++ rest) =
      .ok value)
    (position : Nat) :
    decodeFrom position 0 (b :: bs ++ rest) =
      (decodeFrom (position + (b :: bs).length) 0 rest).map (Char.ofNat value :: ·) := by
  have hb : ¬ b.toNat < 128 := by
    have := continuation?_eq_some_iff.1 hcontinuation
    omega
  rw [List.cons_append, decodeFrom, if_neg hb, hcontinuation]
  simp only [hvalue]
  rw [decodeFrom_append, List.length_cons, Nat.add_right_comm, Nat.add_assoc]

@[simp] theorem leadBits_one (b : UInt8) : leadBits 1 b = b.toNat % 32 := rfl

@[simp] theorem leadBits_two (b : UInt8) : leadBits 2 b = b.toNat % 16 := rfl

@[simp] theorem leadBits_three (b : UInt8) : leadBits 3 b = b.toNat % 8 := rfl

theorem toNat_ofNat_of_lt {n : Nat} (hn : n < 256) : (UInt8.ofNat n).toNat = n :=
  UInt8.toNat_ofNat_of_lt' hn

/-- The bytes of a character are read as that character. -/
theorem decodeFrom_utf8EncodeChar (c : Char) (rest : List UInt8) (position : Nat) :
    decodeFrom position 0 (String.utf8EncodeChar c ++ rest) =
      (decodeFrom (position + (String.utf8EncodeChar c).length) 0 rest).map (c :: ·) := by
  have hc : Char.ofNat c.val.toNat = c := Char.ofNat_toNat c
  have hvalid : c.val.toNat < 0xd800 ∨ 0xdfff < c.val.toNat ∧ c.val.toNat < 0x110000 := c.valid
  generalize hv : c.val.toNat = v at hc hvalid
  have hcharacter {a : UInt8} {bs : List UInt8} {low high : Nat}
      (ha : continuation? a = some (bs.length, low, high))
      (hbs : continuationBytes bs.length low high 0 (leadBits bs.length a) (bs ++ rest) = .ok v) :=
    hc ▸ decodeFrom_cons ha hbs position
  -- the last byte holds six bits, each byte before it six more
  have h0 := toNat_ofNat_of_lt (n := v % 64 + 128) (by omega)
  have h1 := toNat_ofNat_of_lt (n := v / 64 % 64 + 128) (by omega)
  have h2 := toNat_ofNat_of_lt (n := v / 4096 % 64 + 128) (by omega)
  rw [String.utf8EncodeChar, hv]
  split_ifs with hone htwo hthree
  · rw [List.singleton_append, decodeFrom, toNat_ofNat_of_lt (by omega), if_pos (by omega), hc]
    rfl
  · have hlead := toNat_ofNat_of_lt (n := v / 64 % 32 + 192) (by omega)
    refine hcharacter (continuation?_eq_some_iff.2 (.inl ⟨rfl, ?_, ?_, rfl, rfl⟩))
      (continuationBytes_succ_eq_ok_iff.2 ⟨_, _, rfl, ?_, ?_, congrArg Except.ok ?_⟩)
    all_goals simp only [leadBits_one, List.length_singleton, hlead, h0]; omega
  · have hlead := toNat_ofNat_of_lt (n := v / 4096 % 16 + 224) (by omega)
    refine hcharacter (continuation?_eq_some_iff.2 (.inr (.inl ⟨rfl, ?_, ?_, rfl, rfl⟩)))
      (continuationBytes_succ_eq_ok_iff.2 ⟨_, _, rfl, ?_, ?_,
        continuationBytes_succ_eq_ok_iff.2 ⟨_, _, rfl, ?_, ?_, congrArg Except.ok ?_⟩⟩)
    all_goals
      simp only [leadBits_two, List.length_cons, List.length_nil, Nat.reduceAdd, hlead, h0, h1]
      first | omega | split <;> omega
  · have hlead := toNat_ofNat_of_lt (n := v / 262144 % 8 + 240) (by omega)
    refine hcharacter (continuation?_eq_some_iff.2 (.inr (.inr ⟨rfl, ?_, ?_, rfl, rfl⟩)))
      (continuationBytes_succ_eq_ok_iff.2 ⟨_, _, rfl, ?_, ?_,
        continuationBytes_succ_eq_ok_iff.2 ⟨_, _, rfl, ?_, ?_,
          continuationBytes_succ_eq_ok_iff.2 ⟨_, _, rfl, ?_, ?_, congrArg Except.ok ?_⟩⟩⟩)
    all_goals
      simp only [leadBits_three, List.length_cons, List.length_nil, Nat.reduceAdd, hlead, h0,
        h1, h2]
      first | omega | split <;> omega

theorem toNat_char_ofNat {n : Nat} (h : n < 0xd800 ∨ 0xdfff < n ∧ n < 0x110000) :
    (Char.ofNat n).val.toNat = n := by
  have hvalid : n.isValidChar := h
  rw [Char.ofNat, dif_pos hvalid]
  rfl

theorem ofNat_eq_of_eq_toNat {n : Nat} {b : UInt8} (h : n = b.toNat) : UInt8.ofNat n = b :=
  h ▸ UInt8.ofNat_toNat

/-- What is read as one character is the bytes of that character. -/
theorem utf8EncodeChar_of_continuation {a : UInt8} {rest : List UInt8} {more low high value : Nat}
    (ha : continuation? a = some (more, low, high))
    (hvalue : continuationBytes more low high 0 (leadBits more a) rest = .ok value) :
    ∃ bs rest', bs.length = more ∧ rest = bs ++ rest' ∧
      String.utf8EncodeChar (Char.ofNat value) = a :: bs := by
  rcases continuation?_eq_some_iff.1 ha with ⟨rfl, h1, h2, rfl, rfl⟩ | ⟨rfl, h1, h2, hlow, hhigh⟩ |
    ⟨rfl, h1, h2, hlow, hhigh⟩
  · obtain ⟨b, rest, rfl, hb1, hb2, hvalue⟩ := continuationBytes_succ_eq_ok_iff.1 hvalue
    obtain rfl := Except.ok.inj hvalue
    refine ⟨[b], rest, rfl, rfl, ?_⟩
    have hv := toNat_char_ofNat (n := a.toNat % 32 * 64 + b.toNat % 64) (by omega)
    rw [leadBits_one, String.utf8EncodeChar, hv, if_neg (by omega), if_pos (by omega),
      ofNat_eq_of_eq_toNat (b := a) (by omega), ofNat_eq_of_eq_toNat (b := b) (by omega)]
  · obtain ⟨b, rest, rfl, hb1, hb2, hvalue⟩ := continuationBytes_succ_eq_ok_iff.1 hvalue
    obtain ⟨c, rest, rfl, hc1, hc2, hvalue⟩ := continuationBytes_succ_eq_ok_iff.1 hvalue
    obtain rfl := Except.ok.inj hvalue
    refine ⟨[b, c], rest, rfl, rfl, ?_⟩
    have hb : 0x80 ≤ b.toNat ∧ b.toNat ≤ 0xbf := by
      split at hlow <;> split at hhigh <;> omega
    -- neither an overlong form nor a surrogate
    have hlong : 0x20 ≤ a.toNat % 16 * 64 + b.toNat % 64 := by
      split at hlow <;> omega
    have hsurrogate : a.toNat = 0xed → b.toNat ≤ 0x9f := by
      split at hhigh <;> omega
    have hv := toNat_char_ofNat
      (n := (a.toNat % 16 * 64 + b.toNat % 64) * 64 + c.toNat % 64) (by omega)
    rw [leadBits_two, String.utf8EncodeChar, hv, if_neg (by omega), if_neg (by omega),
      if_pos (by omega), ofNat_eq_of_eq_toNat (b := a) (by omega),
      ofNat_eq_of_eq_toNat (b := b) (by omega), ofNat_eq_of_eq_toNat (b := c) (by omega)]
  · obtain ⟨b, rest, rfl, hb1, hb2, hvalue⟩ := continuationBytes_succ_eq_ok_iff.1 hvalue
    obtain ⟨c, rest, rfl, hc1, hc2, hvalue⟩ := continuationBytes_succ_eq_ok_iff.1 hvalue
    obtain ⟨d, rest, rfl, hd1, hd2, hvalue⟩ := continuationBytes_succ_eq_ok_iff.1 hvalue
    obtain rfl := Except.ok.inj hvalue
    refine ⟨[b, c, d], rest, rfl, rfl, ?_⟩
    have hb : 0x80 ≤ b.toNat ∧ b.toNat ≤ 0xbf := by
      split at hlow <;> split at hhigh <;> omega
    -- neither an overlong form nor beyond the last code point
    have hlong : 0x10 ≤ a.toNat % 8 * 64 + b.toNat % 64 := by
      split at hlow <;> omega
    have hlast : a.toNat % 8 * 64 + b.toNat % 64 < 0x110 := by
      split at hhigh <;> omega
    have hv := toNat_char_ofNat
      (n := ((a.toNat % 8 * 64 + b.toNat % 64) * 64 + c.toNat % 64) * 64 + d.toNat % 64)
      (by omega)
    rw [leadBits_three, String.utf8EncodeChar, hv, if_neg (by omega), if_neg (by omega),
      if_neg (by omega), ofNat_eq_of_eq_toNat (b := a) (by omega),
      ofNat_eq_of_eq_toNat (b := b) (by omega), ofNat_eq_of_eq_toNat (b := c) (by omega),
      ofNat_eq_of_eq_toNat (b := d) (by omega)]

/-- What is read begins with the bytes of a character. -/
theorem exists_of_decodeFrom_cons {b : UInt8} {rest : List UInt8} {position : Nat} {cs : List Char}
    (h : decodeFrom position 0 (b :: rest) = .ok cs) :
    ∃ c cs' rest' position', cs = c :: cs' ∧ b :: rest = String.utf8EncodeChar c ++ rest' ∧
      decodeFrom position' 0 rest' = .ok cs' := by
  have hmap {n position' : Nat} {rest' : List UInt8}
      (h : (decodeFrom position' 0 rest').map (Char.ofNat n :: ·) = .ok cs)
      (hbytes : b :: rest = String.utf8EncodeChar (Char.ofNat n) ++ rest') :
      ∃ c cs' rest' position', cs = c :: cs' ∧ b :: rest = String.utf8EncodeChar c ++ rest' ∧
        decodeFrom position' 0 rest' = .ok cs' := by
    cases hrest : decodeFrom position' 0 rest' with
    | error fault => simp [hrest, Except.map] at h
    | ok cs' =>
        rw [hrest] at h
        exact ⟨_, cs', rest', position', (Except.ok.inj h).symm, hbytes, hrest⟩
  rw [decodeFrom] at h
  split at h
  · next hb =>
      refine hmap h ?_
      have hv := toNat_char_ofNat (n := b.toNat) (by omega)
      rw [String.utf8EncodeChar, hv, if_pos (by omega), UInt8.ofNat_toNat, List.singleton_append]
  · cases hcontinuation : continuation? b with
    | none => simp [hcontinuation] at h
    | some range =>
        obtain ⟨more, low, high⟩ := range
        simp only [hcontinuation] at h
        cases hvalue : continuationBytes more low high 0 (leadBits more b) rest with
        | error problem => simp [hvalue] at h
        | ok value =>
            obtain ⟨bs, rest', rfl, rfl, hencode⟩ :=
              utf8EncodeChar_of_continuation hcontinuation hvalue
            simp only [hvalue, decodeFrom_append] at h
            exact hmap h (by rw [hencode, List.cons_append])

theorem decodeFrom_eq_ok_iff {bytes : List UInt8} (position : Nat) {cs : List Char} :
    decodeFrom position 0 bytes = .ok cs ↔ bytes = cs.flatMap String.utf8EncodeChar := by
  constructor
  · intro h
    induction cs generalizing bytes position with
    | nil =>
        cases bytes with
        | nil => rfl
        | cons b rest =>
            obtain ⟨c, cs', -, -, hcs, -⟩ := exists_of_decodeFrom_cons h
            cases hcs
    | cons c cs ih =>
        cases bytes with
        | nil => cases h
        | cons b rest =>
            obtain ⟨c', cs', rest', position', hcs, hbytes, hrest⟩ := exists_of_decodeFrom_cons h
            obtain ⟨rfl, rfl⟩ := List.cons.inj hcs
            rw [hbytes, List.flatMap_cons, ih position' hrest]
  · rintro rfl
    induction cs generalizing position with
    | nil => rfl
    | cons c cs ih => rw [List.flatMap_cons, decodeFrom_utf8EncodeChar, ih, Except.map]

theorem toList_loop_eq (bytes : ByteArray) (i : Nat) (read : List UInt8) :
    ByteArray.toList.loop bytes i read = read.reverse ++ bytes.data.toList.drop i := by
  rw [ByteArray.toList.loop]
  split
  · next h =>
      have hi : i < bytes.data.toList.length := h
      have hget : bytes.get! i = bytes.data.toList[i] := getElem!_pos bytes.data i h
      rw [toList_loop_eq, List.reverse_cons, List.append_assoc, List.singleton_append, hget,
        List.drop_eq_getElem_cons hi]
  · next h => rw [List.drop_eq_nil_of_le (Nat.not_lt.1 h), List.append_nil]
termination_by bytes.size - i

/-- Bytes are read as a text exactly if they are its UTF-8. -/
theorem decodeUtf8_eq_ok_iff {bytes : List UInt8} {s : String} :
    decodeUtf8 bytes = .ok s ↔ bytes = s.toUTF8.toList := by
  have hutf8 : s.toUTF8.toList = s.toList.flatMap String.utf8EncodeChar := by
    rw [ByteArray.toList, toList_loop_eq, String.toUTF8, ← String.utf8Encode_toList,
      List.utf8Encode, List.toList_data_toByteArray]
    rfl
  rw [hutf8, ← decodeFrom_eq_ok_iff 0, decodeUtf8]
  cases decodeFrom 0 0 bytes with
  | error fault => simp [Except.map]
  | ok cs =>
      simp only [Except.map, Except.ok.injEq]
      exact ⟨fun h => h ▸ String.toList_ofList.symm, fun h => h ▸ String.ofList_toList⟩

end OpenApiClient.Text
