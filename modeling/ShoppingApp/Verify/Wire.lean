import ShoppingApp.Zmq.Wire

/-!
# What comes through the wire

A part comes through the two programs at its ends as it was unless it is taken for a peer's name on
one side only: `recv_send_iff` says exactly when. What is only passed on stays as it is unless a
frame looks like such a name already (`send_recv_iff`), and a peer is answered under its own name
just when that name is a C string or one that `recv` rewrites (`reply_address_iff`).
-/

namespace ShoppingApp

namespace ZMsg

variable {part data : Part}

/-! ## Digits -/

/-- `0` to `9` and `A` to `F`. -/
def IsDigit (c : UInt8) : Prop := 0x30 ≤ c ∧ c ≤ 0x39 ∨ 0x41 ≤ c ∧ c ≤ 0x46

instance (c : UInt8) : Decidable (IsDigit c) := inferInstanceAs (Decidable (_ ∨ _))

/-- The byte that two digits make. -/
def joinDigits (a b : UInt8) : UInt8 := (hex_to_bin (a &&& 127) <<< 4) + hex_to_bin (b &&& 127)

theorem joinDigits_hexDigits (d : UInt8) :
    joinDigits (hex_char (d >>> 4)) (hex_char (d &&& 15)) = d := by
  obtain ⟨d⟩ := d
  revert d
  decide +kernel

theorem isDigit_hex_char (d : UInt8) :
    IsDigit (hex_char (d >>> 4)) ∧ IsDigit (hex_char (d &&& 15)) := by
  obtain ⟨d⟩ := d
  revert d
  decide +kernel

/-- The value of a digit, and the digit again. -/
theorem hex_char_hex_to_bin {c : UInt8} (h : IsDigit c) :
    hex_to_bin (c &&& 127) < 16 ∧ hex_char (hex_to_bin (c &&& 127)) = c := by
  obtain ⟨c⟩ := c
  revert c
  decide +kernel

theorem halves {x y : UInt8} (hx : x < 16) (hy : y < 16) :
    ((x <<< 4) + y) >>> 4 = x ∧ ((x <<< 4) + y) &&& 15 = y := by
  have hx' : x.toNat < 16 := hx
  have hy' : y.toNat < 16 := hy
  have hshift : (4 : UInt8).toNat % 8 = 4 := by decide
  have hmask : (15 : UInt8).toNat = 2 ^ 4 - 1 := by decide
  have hsum : ((x <<< 4) + y).toNat = 16 * x.toNat + y.toNat := by
    rw [UInt8.toNat_add, UInt8.toNat_shiftLeft, hshift, Nat.shiftLeft_eq]
    omega
  constructor
  · rw [← UInt8.toNat_inj, UInt8.toNat_shiftRight, hsum, hshift, Nat.shiftRight_eq_div_pow]
    omega
  · rw [← UInt8.toNat_inj, UInt8.toNat_and, hsum, hmask, Nat.and_two_pow_sub_one_eq_mod]
    omega

theorem hexDigits_joinDigits {a b : UInt8} (ha : IsDigit a) (hb : IsDigit b) :
    hexDigits (joinDigits a b) = [a, b] := by
  obtain ⟨halt, ha⟩ := hex_char_hex_to_bin ha
  obtain ⟨hblt, hb⟩ := hex_char_hex_to_bin hb
  obtain ⟨hhigh, hlow⟩ := halves halt hblt
  unfold hexDigits joinDigits
  rw [hhigh, hlow, ha, hb]

theorem decodeDigits_flatMap (bytes : Part) : decodeDigits (bytes.flatMap hexDigits) = bytes := by
  induction bytes with
  | nil => rfl
  | cons d bytes ih =>
    rw [List.flatMap_cons]
    change joinDigits (hex_char (d >>> 4)) (hex_char (d &&& 15)) ::
      decodeDigits (bytes.flatMap hexDigits) = d :: bytes
    rw [joinDigits_hexDigits, ih]

theorem flatMap_decodeDigits (cs : Part) (hdigits : ∀ c ∈ cs, IsDigit c)
    (heven : cs.length % 2 = 0) : (decodeDigits cs).flatMap hexDigits = cs := by
  induction cs using decodeDigits.induct with
  | case1 a b rest ih =>
    obtain ⟨ha, hrest⟩ := List.forall_mem_cons.1 hdigits
    obtain ⟨hb, hrest⟩ := List.forall_mem_cons.1 hrest
    rw [List.length_cons, List.length_cons] at heven
    rw [decodeDigits, List.flatMap_cons]
    change hexDigits (joinDigits a b) ++ _ = _
    rw [hexDigits_joinDigits ha hb, ih hrest (by omega)]
    rfl
  | case2 cs hshort =>
    match cs, hshort, heven with
    | [], _, _ => rfl
    | [_], _, heven => cases heven
    | a :: b :: rest, hshort, _ => exact (hshort a b rest rfl).elim

theorem length_decodeDigits (cs : Part) : (decodeDigits cs).length = cs.length / 2 := by
  induction cs using decodeDigits.induct with
  | case1 a b rest ih =>
    rw [decodeDigits, List.length_cons, ih, List.length_cons, List.length_cons]
    omega
  | case2 cs hshort =>
    match cs, hshort with
    | [], _ => rfl
    | [_], _ =>
      rw [List.length_singleton]
      rfl
    | a :: b :: rest, hshort => exact (hshort a b rest rfl).elim

theorem length_flatMap_hexDigits (bytes : Part) :
    (bytes.flatMap hexDigits).length = 2 * bytes.length := by
  induction bytes with
  | nil => rfl
  | cons d bytes ih =>
    have htwo : (hexDigits d).length = 2 := rfl
    rw [List.flatMap_cons, List.length_append, ih, htwo, List.length_cons]
    omega

theorem isDigit_flatMap (bytes : Part) : ∀ c ∈ bytes.flatMap hexDigits, IsDigit c := by
  intro c hc
  obtain ⟨d, -, hc⟩ := List.mem_flatMap.1 hc
  obtain ⟨hhigh, hlow⟩ := isDigit_hex_char d
  rcases List.mem_cons.1 hc with rfl | hc
  · exact hhigh
  · rw [List.mem_singleton.1 hc]
    exact hlow

/-! ## Names of peers -/

theorem c_str_eq_self : c_str part = part ↔ 0 ∉ part := by
  unfold c_str
  rw [List.takeWhile_eq_self_iff]
  simp only [decide_eq_true_eq]
  exact ⟨fun h h0 => h 0 h0 rfl, fun h x hx h0 => h (h0 ▸ hx)⟩

theorem headed_iff {n : ℕ} {first : UInt8} :
    (decide (data.length = n + 1) && decide (data.head? = some first)) = true ↔
      ∃ rest, data = first :: rest ∧ rest.length = n := by
  rw [Bool.and_eq_true, decide_eq_true_iff, decide_eq_true_iff]
  constructor
  · rintro ⟨hlength, hhead⟩
    obtain ⟨rest, rfl⟩ := List.head?_eq_some_iff.1 hhead
    exact ⟨rest, rfl, Nat.succ.inj hlength⟩
  · rintro ⟨rest, rfl, rfl⟩
    exact ⟨rfl, rfl⟩

theorem isUuid_iff : isUuid data = true ↔ ∃ bytes, data = 0 :: bytes ∧ bytes.length = 16 :=
  headed_iff

theorem isAddress_iff : isAddress part = true ↔ ∃ cs, part = 0x40 :: cs ∧ cs.length = 32 :=
  headed_iff

theorem encode_uuid_cons (first : UInt8) (bytes : Part) :
    encode_uuid (first :: bytes) = 0x40 :: bytes.flatMap hexDigits := rfl

/-- A name of a peer becomes one that goes for a C string. -/
theorem encode_uuid_isAddress (h : isUuid data = true) :
    isAddress (encode_uuid data) = true ∧ ∀ c ∈ (encode_uuid data).tail, IsDigit c := by
  obtain ⟨bytes, rfl, hlength⟩ := isUuid_iff.1 h
  rw [encode_uuid_cons]
  refine ⟨isAddress_iff.2 ⟨_, rfl, ?_⟩, isDigit_flatMap bytes⟩
  rw [length_flatMap_hexDigits, hlength]

theorem zero_notMem_of_isDigit (hdigits : ∀ c ∈ part, IsDigit c) : 0 ∉ 0x40 :: part := by
  intro h0
  rcases List.mem_cons.1 h0 with h0 | h0
  · exact absurd h0 (by decide)
  · exact absurd (hdigits 0 h0) (by decide)

theorem recvPart_uuid (h : isUuid data = true) : recvPart data = encode_uuid data := by
  obtain ⟨bytes, rfl, -⟩ := isUuid_iff.1 h
  unfold recvPart
  rw [if_pos h, encode_uuid_cons]
  exact c_str_eq_self.2 (zero_notMem_of_isDigit (isDigit_flatMap bytes))

theorem recvPart_other (h : isUuid data = false) : recvPart data = data := by
  unfold recvPart
  rw [h]
  exact if_neg Bool.false_ne_true

theorem sendPart_other (h : isAddress part = false) : sendPart part = some part := by
  unfold sendPart
  rw [h]
  exact if_neg Bool.false_ne_true

/-- What looks like a name of a peer is sent as one, or the program ends. -/
theorem sendPart_address (h : isAddress part = true) : ∀ data ∈ sendPart part,
    isUuid data = true ∧ data = 0 :: decodeDigits part.tail := by
  obtain ⟨cs, rfl, hlength⟩ := isAddress_iff.1 h
  intro data hdata
  unfold sendPart decode_uuid at hdata
  rw [if_pos h] at hdata
  split_ifs at hdata
  · cases hdata
    refine ⟨isUuid_iff.2 ⟨_, rfl, ?_⟩, rfl⟩
    rw [length_decodeDigits, List.tail_cons, hlength]
  · cases hdata

theorem sendPart_digits (h : isAddress part = true) (hdigits : ∀ c ∈ part.tail, IsDigit c) :
    sendPart part = some (0 :: decodeDigits part.tail) := by
  obtain ⟨cs, rfl, hlength⟩ := isAddress_iff.1 h
  have hself : c_str (0x40 :: cs) = 0x40 :: cs := c_str_eq_self.2 (zero_notMem_of_isDigit hdigits)
  unfold sendPart decode_uuid
  rw [if_pos h, hself, List.length_cons, hlength]
  exact if_pos ⟨rfl, rfl⟩

/-- **The name of a peer is turned back.** -/
theorem sendPart_recvPart (h : isUuid data = true) : sendPart (recvPart data) = some data := by
  obtain ⟨haddress, hdigits⟩ := encode_uuid_isAddress h
  rw [recvPart_uuid h, sendPart_digits haddress hdigits]
  obtain ⟨bytes, rfl, -⟩ := isUuid_iff.1 h
  rw [encode_uuid_cons, List.tail_cons, decodeDigits_flatMap]

theorem uuid_not_address (h : isUuid data = true) : isAddress data = false := by
  obtain ⟨bytes, rfl, hlength⟩ := isUuid_iff.1 h
  refine Bool.eq_false_iff.2 fun haddress => ?_
  obtain ⟨cs, heq, -⟩ := isAddress_iff.1 haddress
  exact absurd (List.head_eq_of_cons_eq heq) (by decide)

/-! ## Parts -/

/-- Neither a bare name of a peer, nor something that only looks like a written one. -/
def Sound (part : Part) : Prop :=
  isUuid part = false ∧ (isAddress part = true → ∀ c ∈ part.tail, IsDigit c)

theorem recvPart_sendPart_iff (part : Part) :
    (sendPart part).map recvPart = some part ↔ Sound part := by
  constructor
  · intro h
    obtain ⟨data, hdata, hpart⟩ := Option.map_eq_some_iff.1 h
    by_cases haddress : isAddress part = true
    · -- it has been sent as a name, and is what the other side makes of that
      have huuid : isUuid data = true := (sendPart_address haddress data hdata).1
      obtain ⟨-, hdigits⟩ := encode_uuid_isAddress huuid
      rw [recvPart_uuid huuid] at hpart
      refine ⟨?_, fun _ => hpart ▸ hdigits⟩
      by_contra hbare
      rw [uuid_not_address (Bool.not_eq_false _ ▸ hbare)] at haddress
      cases haddress
    · rw [sendPart_other (Bool.eq_false_iff.2 haddress), Option.some.injEq] at hdata
      subst hdata
      refine ⟨Bool.eq_false_iff.2 fun huuid => haddress ?_, fun h => absurd h haddress⟩
      rw [← hpart, recvPart_uuid huuid]
      exact (encode_uuid_isAddress huuid).1
  · rintro ⟨huuid, hdigits⟩
    by_cases haddress : isAddress part = true
    · have hsent := sendPart_digits haddress (hdigits haddress)
      have hdata := (sendPart_address haddress _ hsent).1
      rw [hsent, Option.map_some, recvPart_uuid hdata]
      obtain ⟨cs, rfl, hlength⟩ := isAddress_iff.1 haddress
      rw [encode_uuid_cons, List.tail_cons, flatMap_decodeDigits cs (hdigits haddress)]
      rw [hlength]
    · rw [sendPart_other (Bool.eq_false_iff.2 haddress), Option.map_some, recvPart_other huuid]

theorem sendPart_recvPart_iff (data : Part) :
    sendPart (recvPart data) = some data ↔ isAddress data = false := by
  by_cases huuid : isUuid data = true
  · exact iff_of_true (sendPart_recvPart huuid) (uuid_not_address huuid)
  · rw [recvPart_other (Bool.eq_false_iff.2 huuid)]
    refine ⟨fun h => Bool.eq_false_iff.2 fun haddress => huuid ?_, sendPart_other⟩
    exact (sendPart_address haddress data h).1

/-! ## Messages -/

theorem mapM_eq_self {f : Part → Option Part} {parts : List Part} :
    parts.mapM f = some parts ↔ ∀ part ∈ parts, f part = some part := by
  induction parts with
  | nil => exact iff_of_true rfl nofun
  | cons part parts ih =>
    rw [List.mapM_cons, List.forall_mem_cons, ← ih]
    simp [Option.bind_eq_some_iff]

theorem map_mapM {f : Part → Option Part} {g : Part → Part} (parts : List Part) :
    (parts.mapM f).map (List.map g) = parts.mapM fun part => (f part).map g := by
  induction parts with
  | nil => rfl
  | cons part parts ih =>
    rw [List.mapM_cons, List.mapM_cons, ← ih]
    cases f part with
    | none => rfl
    | some part' => cases parts.mapM f <;> rfl

/-- A message comes through as its parts do. -/
theorem recv_send_parts (parts : List Part) : (send parts).map recv = some parts ↔
    ∀ part ∈ parts, (sendPart part).map recvPart = some part :=
  (Eq.congr_left (map_mapM parts)).trans mapM_eq_self

/-- **A message comes through unchanged just when every part is sound**: none is a bare name of a
peer, and what looks like a written one is one. -/
theorem recv_send_iff (parts : List Part) :
    (send parts).map recv = some parts ↔ ∀ part ∈ parts, Sound part :=
  (recv_send_parts parts).trans (forall₂_congr fun part _ => recvPart_sendPart_iff part)

/-- **What is received and sent on stays as it is just when no frame looks like a written name.** -/
theorem send_recv_iff (frames : List Part) :
    send (recv frames) = some frames ↔ ∀ data ∈ frames, isAddress data = false := by
  have hmap : send (recv frames) = frames.mapM (sendPart ∘ recvPart) := by
    unfold send recv
    rw [List.mapM_map]
  rw [hmap]
  exact mapM_eq_self.trans (forall₂_congr fun data _ => sendPart_recvPart_iff data)

/-- **A peer is answered under its own name** just when `recv` rewrites the name, or it is a C
string that does not look like a rewritten one: the name is handled as a C string in between. -/
theorem reply_address_iff (name : Part) :
    sendPart (c_str (recvPart name)) = some name ↔
      isUuid name = true ∨ 0 ∉ name ∧ isAddress name = false := by
  by_cases huuid : isUuid name = true
  · refine iff_of_true ?_ (.inl huuid)
    have hself : c_str (recvPart name) = recvPart name := by
      rw [recvPart, if_pos huuid]
      exact List.takeWhile_idem
    rw [hself, sendPart_recvPart huuid]
  · rw [recvPart_other (Bool.eq_false_iff.2 huuid), or_iff_right huuid]
    constructor
    · intro h
      have haddress : isAddress (c_str name) = false :=
        Bool.eq_false_iff.2 fun haddress => huuid (sendPart_address haddress name h).1
      rw [sendPart_other haddress, Option.some.injEq] at h
      exact ⟨c_str_eq_self.1 h, h ▸ haddress⟩
    · rintro ⟨hzero, haddress⟩
      rw [c_str_eq_self.2 hzero, sendPart_other haddress]

/-! ## Frames that are strings -/

theorem le_ofNat {n : ℕ} (h : 128 ≤ n) (hlt : n < 256) : (128 : UInt8) ≤ UInt8.ofNat n := by
  rw [UInt8.le_iff_toNat_le, UInt8.toNat_ofNat', Nat.mod_eq_of_lt hlt]
  exact h

/-- A character is one byte, its code, or some bytes that are no characters. -/
theorem utf8EncodeChar_cases (c : Char) :
    (c.toNat < 128 ∧ String.utf8EncodeChar c = [UInt8.ofNat c.toNat]) ∨
      (128 ≤ c.toNat ∧ ∀ byte ∈ String.utf8EncodeChar c, 128 ≤ byte) := by
  have hcode : c.toNat = c.val.toNat := rfl
  unfold String.utf8EncodeChar
  dsimp only
  by_cases hone : c.val.toNat ≤ 127
  · rw [if_pos hone]
    exact .inl ⟨by omega, rfl⟩
  · rw [if_neg hone]
    refine .inr ⟨by omega, fun byte hbyte => ?_⟩
    split_ifs at hbyte
    all_goals
      simp only [List.mem_cons, List.not_mem_nil, or_false] at hbyte
      rcases hbyte with rfl | rfl | rfl | rfl <;> exact le_ofNat (by omega) (by omega)

/-- A byte below 128 is in a character just when it is the character. -/
theorem mem_utf8EncodeChar {c : Char} {n : ℕ} (hn : n < 128) :
    UInt8.ofNat n ∈ String.utf8EncodeChar c ↔ c.toNat = n := by
  have hnat : (UInt8.ofNat n).toNat = n := by
    rw [UInt8.toNat_ofNat', Nat.mod_eq_of_lt (by omega)]
  rcases utf8EncodeChar_cases c with ⟨hc, heq⟩ | ⟨hc, hhigh⟩
  · rw [heq, List.mem_singleton, ← UInt8.toNat_inj, hnat, UInt8.toNat_ofNat',
      Nat.mod_eq_of_lt (by omega), eq_comm]
  · refine iff_of_false (fun hmem => ?_) (by omega)
    have hle : 128 ≤ (UInt8.ofNat n).toNat := UInt8.le_iff_toNat_le.1 (hhigh _ hmem)
    omega

theorem bytes_cons (c : Char) (cs : List Char) :
    bytes (String.ofList (c :: cs)) = String.utf8EncodeChar c ++ bytes (String.ofList cs) := by
  unfold bytes
  rw [String.toList_ofList, String.toList_ofList, List.flatMap_cons]

/-- **Cutting a string at its first NUL is cutting its bytes there.** -/
theorem c_str_bytes (frame : String) : c_str (bytes frame) = bytes (cStr frame) := by
  have hlist : ∀ cs : List Char, c_str (bytes (String.ofList cs)) =
      bytes (String.ofList (cs.takeWhile (· ≠ '\x00'))) := by
    intro cs
    induction cs with
    | nil => rfl
    | cons c cs ih =>
      have hzero : (0 : UInt8) ∈ String.utf8EncodeChar c ↔ c.toNat = 0 :=
        mem_utf8EncodeChar (n := 0) (by decide)
      rw [bytes_cons]
      by_cases hc : c = '\x00'
      · subst hc
        rfl
      · have hne : c.toNat ≠ 0 := fun h => hc (Char.toNat_inj.1 h)
        have hall : ∀ byte ∈ String.utf8EncodeChar c, decide (byte ≠ 0) = true :=
          fun byte hbyte => decide_eq_true fun h => hne (hzero.1 (h ▸ hbyte))
        rw [List.takeWhile_cons_of_pos (by simp [hc]), bytes_cons, ← ih]
        exact List.takeWhile_append_of_pos hall
  have h := hlist frame.toList
  rw [String.ofList_toList] at h
  exact h

theorem head_bytes {frame : String} {n : ℕ} (hn : n < 128)
    (hhead : (bytes frame).head? = some (UInt8.ofNat n)) :
    ∃ c, frame.toList.head? = some c ∧ c.toNat = n := by
  unfold bytes at hhead
  cases hlist : frame.toList with
  | nil =>
    rw [hlist] at hhead
    cases hhead
  | cons c cs =>
    refine ⟨c, rfl, (mem_utf8EncodeChar hn).1 ?_⟩
    rw [hlist, List.flatMap_cons, List.head?_append_of_ne_nil _ String.utf8EncodeChar_ne_nil]
      at hhead
    exact List.mem_of_mem_head? hhead

/-- A message of strings that begin neither with NUL nor with `@` comes through as it was, so that
`ZMsg` is what both of its ends see. -/
theorem zmsg_through (msg : ZMsg) (h : ∀ frame ∈ msg, ∀ c, frame.toList.head? = some c →
    c ≠ '\x00' ∧ c ≠ '@') : (send (msg.map bytes)).map recv = some (msg.map bytes) := by
  refine (recv_send_parts _).2 fun part hpart => ?_
  obtain ⟨frame, hframe, rfl⟩ := List.mem_map.1 hpart
  have hother : ∀ n : ℕ, n < 128 → (n = 0 ∨ n = 0x40) →
      (bytes frame).head? ≠ some (UInt8.ofNat n) := by
    intro n hn hcode hhead
    obtain ⟨c, hc, rfl⟩ := head_bytes hn hhead
    obtain ⟨hnul, hat⟩ := h frame hframe c hc
    rcases hcode with hcode | hcode
    · exact hnul (Char.toNat_inj.1 hcode)
    · exact hat (Char.toNat_inj.1 hcode)
  have huuid : isUuid (bytes frame) = false := by
    refine Bool.eq_false_iff.2 fun huuid => hother 0 (by decide) (.inl rfl) ?_
    obtain ⟨rest, heq, -⟩ := isUuid_iff.1 huuid
    rw [heq]
    rfl
  have haddress : isAddress (bytes frame) = false := by
    refine Bool.eq_false_iff.2 fun haddress => hother 0x40 (by decide) (.inr rfl) ?_
    obtain ⟨rest, heq, -⟩ := isAddress_iff.1 haddress
    rw [heq]
    rfl
  rw [sendPart_other haddress, Option.map_some, recvPart_other huuid]

end ZMsg

end ShoppingApp
