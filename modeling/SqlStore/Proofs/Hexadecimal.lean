import SqlStore.Proofs.Numeric.Text
import SqlStore.Uuid

/-!
# Hexadecimal texts

Byte strings and identifiers are read from the hexadecimal digits that they are written in. Digits are
ASCII characters, so the bytes of their text are their codes.
-/

namespace SqlStore

theorem hexDigit_code : ∀ {n : Nat}, n < 16 → (hexDigit n).toNat < 128 := by decide

namespace Bytes

/-! ## Byte strings -/

theorem loop_eq {bytes : ByteArray} {ds : List UInt8} {i : Nat} (h : bytes.data.toList.drop i = ds)
    (r : List UInt8) : ByteArray.toList.loop bytes i r = r.reverse ++ ds := by
  have hsize : bytes.data.toList.length = bytes.size := Array.length_toList
  induction ds generalizing i r with
  | nil =>
    have hend : ¬ i < bytes.size := by
      rw [← hsize]
      exact Nat.not_lt.mpr (List.drop_eq_nil_iff.mp h)
    rw [ByteArray.toList.loop, if_neg hend, List.append_nil]
  | cons d ds ih =>
    have hlt : i < bytes.size := by
      rw [← hsize]
      exact Nat.lt_of_not_le fun hle => by simp [List.drop_eq_nil_of_le hle] at h
    have hnext : bytes.data.toList.drop (i + 1) = ds := by
      rw [← List.tail_drop, h, List.tail_cons]
    have hget : bytes.get! i = d := by
      have hd : bytes.data.toList[i]? = some d := by
        rw [← List.head?_drop, h, List.head?_cons]
      rw [Array.getElem?_toList] at hd
      obtain ⟨hi, hd⟩ := Array.getElem?_eq_some_iff.mp hd
      cases bytes with
      | mk data => exact (getElem!_pos data i hi).trans hd
    rw [ByteArray.toList.loop, if_pos hlt, ih hnext, hget, List.reverse_cons, List.append_assoc]
    rfl

/-- The bytes of a text of ASCII characters are their codes. -/
theorem ofString_ofList {cs : List Char} (h : ∀ c ∈ cs, c.toNat < 128) :
    ofString (String.ofList cs) = cs.map fun c => UInt8.ofNat c.toNat := by
  have hencode : cs.flatMap String.utf8EncodeChar = cs.map fun c => UInt8.ofNat c.toNat := by
    induction cs with
    | nil => rfl
    | cons c cs ih =>
      have hc : c.val.toNat ≤ 127 := Nat.le_of_lt_succ (h c List.mem_cons_self)
      have hone : String.utf8EncodeChar c = [UInt8.ofNat c.toNat] := if_pos hc
      rw [List.flatMap_cons, hone, ih fun d hd => h d (List.mem_cons_of_mem c hd)]
      rfl
  unfold ofString
  rw [String.toUTF8_eq_toByteArray, String.toByteArray_ofList, List.utf8Encode, hencode]
  exact loop_eq (by simp) []

theorem digit?_hexDigit : ∀ {n : Nat}, n < 16 → digit? (UInt8.ofNat (hexDigit n).toNat) = some n := by
  decide

theorem hex_cons (b : UInt8) (bytes : List UInt8) :
    hex (b :: bytes) = hexDigit (b.toNat / 16) :: hexDigit (b.toNat % 16) :: hex bytes := rfl

theorem high_lt (b : UInt8) : b.toNat / 16 < 16 := by
  have hb := b.toNat_lt
  omega

theorem low_lt (b : UInt8) : b.toNat % 16 < 16 := Nat.mod_lt _ (by decide)

theorem length_hex (bytes : List UInt8) : (hex bytes).length = 2 * bytes.length := by
  induction bytes with
  | nil => rfl
  | cons b bytes ih =>
    rw [hex_cons, List.length_cons, List.length_cons, List.length_cons, ih]
    omega

theorem exists_hexDigit {bytes : List UInt8} {c : Char} (h : c ∈ hex bytes) :
    ∃ n, n < 16 ∧ c = hexDigit n := by
  obtain ⟨b, -, hc⟩ := List.mem_flatMap.mp h
  rcases List.mem_cons.mp hc with rfl | hc
  · exact ⟨_, high_lt b, rfl⟩
  · exact ⟨_, low_lt b, List.mem_singleton.mp hc⟩

theorem readPairs_hex (position : Nat) (bytes : List UInt8) :
    readPairs position ((hex bytes).map fun c => UInt8.ofNat c.toNat) = .ok bytes := by
  induction bytes generalizing position with
  | nil => rfl
  | cons b bytes ih =>
    have hbyte : UInt8.ofNat (b.toNat / 16 * 16 + b.toNat % 16) = b := by
      rw [Nat.div_add_mod', UInt8.ofNat_toNat]
    rw [hex_cons, List.map_cons, List.map_cons, readPairs, digit?_hexDigit (high_lt b),
      digit?_hexDigit (low_lt b)]
    dsimp only
    rw [ih, hbyte]
    rfl

/-- The hexadecimal digits of bytes are read as the bytes. -/
theorem ofHex_hex (bytes : List UInt8) : ofHex (String.ofList (hex bytes)) = .ok bytes := by
  have hcodes : ∀ c ∈ hex bytes, c.toNat < 128 := by
    intro c hc
    obtain ⟨n, hn, rfl⟩ := exists_hexDigit hc
    exact hexDigit_code hn
  unfold ofHex
  dsimp only
  rw [ofString_ofList hcodes, List.length_map, length_hex, if_neg (by simp), readPairs_hex]

end Bytes

namespace Text

/-! ## Pieces between separators -/

theorem splitFrom_piece {separator : Char} {cs : List Char} (h : separator ∉ cs) (piece rest : List Char) :
    splitFrom separator piece (cs ++ rest) = splitFrom separator (cs.reverse ++ piece) rest := by
  induction cs generalizing piece with
  | nil => rfl
  | cons c cs ih =>
    rw [List.mem_cons, not_or] at h
    rw [List.cons_append, splitFrom, if_neg (by simpa using Ne.symm h.1), ih h.2, List.reverse_cons,
      List.append_assoc]
    rfl

theorem split_append {separator : Char} {cs : List Char} (h : separator ∉ cs) (rest : List Char) :
    split separator (cs ++ separator :: rest) = cs :: split separator rest := by
  unfold split
  rw [splitFrom_piece h, splitFrom, if_pos (beq_self_eq_true _), List.append_nil, List.reverse_reverse]

theorem split_self {separator : Char} {cs : List Char} (h : separator ∉ cs) : split separator cs = [cs] := by
  have hpiece := splitFrom_piece h [] []
  rw [List.append_nil] at hpiece
  unfold split
  rw [hpiece, splitFrom, List.append_nil, List.reverse_reverse]

end Text

namespace Uuid

/-! ## Identifiers -/

theorem hexValue?_hexDigit : ∀ {n : Nat}, n < 16 → Json.hexValue? (hexDigit n) = some n := by decide

theorem hexDigit_ne : ∀ {n : Nat}, n < 16 → hexDigit n ≠ '-' ∧ hexDigit n ≠ 'u' ∧ (hexDigit n).toNat ≠ 123 := by
  decide

/-- The values of the digits of bytes. -/
def nibbles (bytes : List UInt8) : List Nat := bytes.flatMap fun b => [b.toNat / 16, b.toNat % 16]

theorem mapM_hexValue? (bytes : List UInt8) : (Bytes.hex bytes).mapM Json.hexValue? = some (nibbles bytes) := by
  induction bytes with
  | nil => rfl
  | cons b bytes ih =>
    rw [Bytes.hex_cons, List.mapM_cons, List.mapM_cons, hexValue?_hexDigit (Bytes.high_lt b),
      hexValue?_hexDigit (Bytes.low_lt b), ih]
    rfl

theorem length_nibbles (bytes : List UInt8) : (nibbles bytes).length = 2 * bytes.length := by
  induction bytes with
  | nil => rfl
  | cons b bytes ih =>
    show (nibbles bytes).length + 2 = 2 * (bytes.length + 1)
    omega

theorem foldl_nibbles (bytes : List UInt8) (n : Nat) :
    (nibbles bytes).foldl (fun n d => n * 16 + d) n = bytes.foldl (fun n b => n * 256 + b.toNat) n := by
  induction bytes generalizing n with
  | nil => rfl
  | cons b bytes ih =>
    have hstep : (n * 16 + b.toNat / 16) * 16 + b.toNat % 16 = n * 256 + b.toNat := by omega
    show (nibbles bytes).foldl _ ((n * 16 + b.toNat / 16) * 16 + b.toNat % 16) = _
    rw [hstep, ih]
    rfl

/-- The first bytes spell what is in front of the rest. -/
theorem natOfBytes_front {n : Nat} (h : n < pow2 128) {k : Nat} (hk : k ≤ 16) :
    natOfBytes ((List.range k).map fun i => UInt8.ofNat (n / pow2 (8 * (15 - i)))) =
      n / pow2 (8 * (16 - k)) := by
  induction k with
  | zero => exact (Nat.div_eq_of_lt h).symm
  | succ k ih =>
    have hshift : pow2 (8 * (16 - k)) = pow2 (8 * (15 - k)) * 256 := by
      rw [show 8 * (16 - k) = 8 * (15 - k) + 8 by omega, pow2_add]
      rfl
    have hfront := ih (by omega)
    unfold natOfBytes at hfront ⊢
    rw [List.range_succ, List.map_append, List.foldl_append, hfront, hshift, ← Nat.div_div_eq_div_mul,
      show 16 - (k + 1) = 15 - k by omega]
    show _ * 256 + (UInt8.ofNat _).toNat = _
    rw [UInt8.toNat_ofNat']
    exact Nat.div_add_mod' _ 256

theorem natOfBytes_toBytes (u : Uuid) : natOfBytes u.toBytes = u.bits.toNat := by
  have h := natOfBytes_front (n := u.bits.toNat) u.bits.isLt le_rfl
  rwa [Nat.sub_self, Nat.mul_zero, show pow2 0 = 1 from rfl, Nat.div_one] at h

theorem length_toBytes (u : Uuid) : u.toBytes.length = 16 := by
  unfold toBytes
  rw [List.length_map, List.length_range]

theorem ofDigits?_hex (u : Uuid) : ofDigits? (Bytes.hex u.toBytes) = some u := by
  have hlength : ((nibbles u.toBytes).length == 32) = true := by
    rw [length_nibbles, length_toBytes]
    rfl
  unfold ofDigits?
  rw [mapM_hexValue?, Option.bind_eq_bind, Option.bind_some, if_pos hlength, foldl_nibbles]
  show some (⟨BitVec.ofNat 128 (natOfBytes u.toBytes)⟩ : Uuid) = some u
  rw [natOfBytes_toBytes, BitVec.ofNat_toNat, BitVec.setWidth_eq]

theorem not_mem_hex (u : Uuid) : '-' ∉ Bytes.hex u.toBytes := by
  intro h
  obtain ⟨n, hn, heq⟩ := Bytes.exists_hexDigit h
  exact (hexDigit_ne hn).1 heq.symm

/-- The text is made of five groups that together are the digits. -/
theorem exists_groups (u : Uuid) : ∃ a b c d e : List Char, a ++ b ++ c ++ d ++ e = Bytes.hex u.toBytes ∧
    [a, b, c, d, e].map List.length = uuidGroups ∧
    u.text = String.ofList (a ++ '-' :: (b ++ '-' :: (c ++ '-' :: (d ++ '-' :: e)))) := by
  have hlength : (Bytes.hex u.toBytes).length = 32 := by
    rw [Bytes.length_hex, length_toBytes]
  unfold text
  generalize Bytes.hex u.toBytes = ds at *
  refine ⟨ds.take 8, (ds.drop 8).take 4, (ds.drop 12).take 4, (ds.drop 16).take 4, (ds.drop 20).take 12,
    ?_, ?_, ?_⟩
  · have hlast : (ds.drop 20).take 12 = ds.drop 20 := List.take_of_length_le (by simp [hlength])
    have hjoin : ∀ start width, (ds.drop start).take width ++ ds.drop (start + width) = ds.drop start := by
      intro start width
      rw [← List.drop_drop]
      exact List.take_append_drop width _
    rw [hlast, List.append_assoc, List.append_assoc, List.append_assoc, hjoin 16 4, hjoin 12 4, hjoin 8 4]
    exact List.take_append_drop 8 ds
  · simp [hlength, uuidGroups]
  · simp

theorem ofDigits?_of_hyphen {cs : List Char} (h : '-' ∈ cs) : ofDigits? cs = none := by
  have hnone : cs.mapM Json.hexValue? = none := by
    induction cs with
    | nil => cases h
    | cons c cs ih =>
      rw [List.mapM_cons]
      rcases List.mem_cons.mp h with rfl | h
      · rfl
      · rw [ih h]
        cases Json.hexValue? c <;> rfl
  unfold ofDigits?
  rw [hnone]
  rfl

/-- Behind a digit nothing is taken off. -/
theorem unwrap_hexDigit {n : Nat} (hn : n < 16) (cs : List Char) :
    unwrap (hexDigit n :: cs) = (hexDigit n :: cs, 0, true) := by
  obtain ⟨-, hmark, hbrace⟩ := hexDigit_ne hn
  have hprefix : "urn:uuid:".toList.isPrefixOf (hexDigit n :: cs) = false := by
    rw [show "urn:uuid:".toList = 'u' :: "rn:uuid:".toList by decide, List.isPrefixOf_cons_cons,
      beq_eq_false_iff_ne.mpr (Ne.symm hmark), Bool.false_and]
  unfold unwrap
  dsimp only
  rw [beq_eq_false_iff_ne.mpr hbrace, hprefix]
  rfl

theorem trim_text (u : Uuid) : Text.trim u.text = u.text := by
  have hdigit : ∀ {n : Nat}, n < 16 → Text.isBlank (hexDigit n) = false := by decide
  obtain ⟨a, b, c, d, e, hdigits, -, htext⟩ := u.exists_groups
  rw [htext]
  refine Text.trim_of_all fun x hx => ?_
  by_cases hhyphen : x = '-'
  · subst hhyphen
    decide
  · have hmem : x ∈ Bytes.hex u.toBytes := by
      rw [← hdigits]
      simp only [List.mem_append, List.mem_cons, hhyphen, false_or] at hx ⊢
      tauto
    obtain ⟨n, hn, rfl⟩ := Bytes.exists_hexDigit hmem
    exact hdigit hn

/-- An identifier is read from its text. -/
theorem parse_text (u : Uuid) : parse u.text = .ok u := by
  obtain ⟨a, b, c, d, e, hdigits, hlengths, htext⟩ := u.exists_groups
  have hhyphen := u.not_mem_hex
  rw [← hdigits] at hhyphen
  simp only [List.mem_append, not_or] at hhyphen
  obtain ⟨⟨⟨⟨ha, hb⟩, hc⟩, hd⟩, he⟩ := hhyphen
  have hsplit : Text.split '-' u.text.toList = [a, b, c, d, e] := by
    rw [htext, String.toList_ofList, Text.split_append ha, Text.split_append hb, Text.split_append hc,
      Text.split_append hd, Text.split_self he]
  have hgroups : ofGroups? u.text.toList = some u := by
    unfold ofGroups?
    dsimp only
    rw [hsplit, if_pos (by rw [hlengths]; rfl), show [a, b, c, d, e].flatten = Bytes.hex u.toBytes by
      simpa using hdigits]
    exact u.ofDigits?_hex
  have hplain : ofDigits? u.text.toList = none := by
    refine ofDigits?_of_hyphen ?_
    rw [htext, String.toList_ofList]
    exact List.mem_append_right a List.mem_cons_self
  have hunwrap : unwrap u.text.toList = (u.text.toList, 0, true) := by
    rw [htext, String.toList_ofList]
    cases a with
    | nil => cases hlengths
    | cons x a =>
      obtain ⟨n, hn, rfl⟩ := Bytes.exists_hexDigit (c := x) (by rw [← hdigits]; simp)
      exact unwrap_hexDigit hn _
  unfold parse
  rw [hunwrap]
  dsimp only
  rw [if_pos rfl, hplain, hgroups]
  rfl

end Uuid

end SqlStore
