import ShoppingApp.Verify.MajWorker
import ShoppingApp.Verify.Ring
import ShoppingApp.Worker.RingFrames

/-!
# What a message about the ring decodes to

A decimal numeral reads back as the number it was printed from, so a ring written as an object is
found again whatever the order of the object's keys (`convert_json_to_ring_convert`). With the
servers under it this makes a BROADCAST_RING message put the sender's ring and servers in the place
of the receiver's (`broadcast_ring_decodes`).
-/

namespace ShoppingApp

variable {generateHash : ConsistentHashing.Hash} {text : JsonText}

/-! ## Decimal numerals -/

theorem toString_nat_injective {m n : Nat} (h : toString m = toString n) : m = n := by
  have hdigits : Nat.toDigits 10 m = Nat.toDigits 10 n := by
    rw [← Nat.toList_repr, ← Nat.toList_repr]
    exact congrArg String.toList h
  rw [← Nat.ofDigitChars_ten_toDigits (n := m), hdigits, Nat.ofDigitChars_ten_toDigits]

/-- Digits without a blank or a sign before them. -/
theorem stoull_digits {cs : List Char} (hne : cs ≠ []) (hdigits : ∀ c ∈ cs, c.isDigit)
    (hlt : Nat.ofDigitChars 10 cs 0 < 2 ^ 64) :
    stoull (String.ofList cs) = .ok (Nat.ofDigitChars 10 cs 0) := by
  obtain ⟨d, ds, rfl⟩ := List.exists_cons_of_ne_nil hne
  have hd : d.isDigit := hdigits d List.mem_cons_self
  obtain ⟨hblank, hminus, hplus⟩ := Cin.not_blank_of_isDigit hd
  have hnoblank : (d :: ds).dropWhile Cin.isspace = d :: ds :=
    List.dropWhile_cons_of_neg (by rw [hblank]; decide)
  have hminus : (d :: ds).head? ≠ some '-' := fun heq => hminus (Option.some.inj heq)
  have hplus : (d :: ds).head? ≠ some '+' := fun heq => hplus (Option.some.inj heq)
  have hall : (d :: ds).takeWhile Char.isDigit = d :: ds := List.takeWhile_eq_self_iff.2 hdigits
  unfold stoull
  dsimp only
  rw [String.toList_ofList, hnoblank, if_neg (not_or.2 ⟨hminus, hplus⟩), hall,
    if_neg (not_or.2 ⟨hne, hlt.not_ge⟩), if_neg hminus]

theorem stoull_toString {n : Nat} (h : n < 2 ^ 64) : stoull (toString n) = .ok n := by
  have hvalue : Nat.ofDigitChars 10 (Nat.toDigits 10 n) 0 = n := Nat.ofDigitChars_ten_toDigits
  have hread : stoull (String.ofList (Nat.toDigits 10 n)) = .ok _ :=
    stoull_digits Nat.toDigits_ne_nil
      (fun c hc => Nat.isDigit_of_mem_toDigits (by decide) (by decide) hc) (by rw [hvalue]; exact h)
  rw [Nat.toString_eq_ofList_toDigits, hread, hvalue]

namespace Worker

/-! ## Rings and servers -/

/-- What a worker writes about its ring reads back: the text of a value has no NUL and parses to the
value. -/
structure Prints (text : JsonText) (j : Json) : Prop where
  cStr : cStr (text.dump j) = text.dump j
  parse : text.parse (text.dump j) = some j

/-- A ring's member of the object that it is written as. -/
def ringMember (e : Nat × String) : String × Json := (toString e.1, .str e.2)

/-- A ring is written with its own entries as members, in another order. -/
theorem convert_ring_to_json_spec (ring : SortedMap Nat String) :
    ∃ (j : Json) (es : List (Nat × String)), convert_ring_to_json ring = .ok j ∧
      j.items = es.map ringMember ∧ es.Perm ring.entries := by
  obtain ⟨j, hj, hitems⟩ := Json.foldlM_set (fun e : Nat × String => toString e.1)
    (fun e => .str e.2) ring.entries
  have hdistinct : (ring.entries.map ringMember).Pairwise fun a b => a.1 ≠ b.1 :=
    List.pairwise_map.2 (ring.distinct.imp fun hne h => hne (toString_nat_injective h))
  obtain ⟨es, hes, hperm⟩ := SortedMap.exists_of_perm_foldl_set hdistinct (.of_eq hitems)
  exact ⟨j, es, hj, hes, hperm⟩

/-- The ring that another worker has written is read as it was. -/
theorem convert_json_to_ring_convert {ring : SortedMap Nat String}
    (hsize : ∀ e ∈ ring.entries, e.1 < 2 ^ 64) {j : Json} (hj : convert_ring_to_json ring = .ok j)
    {frame : String} (hframe : text.parse frame = some j) :
    convert_json_to_ring text frame = .ok ring := by
  obtain ⟨j', es, hj', hitems, hperm⟩ := convert_ring_to_json_spec ring
  obtain rfl : j = j' := Except.ok.inj (hj.symm.trans hj')
  have hloop : (es.map ringMember).foldlM (fun (result : SortedMap Nat String) el => do
      let key ← stoull el.1
      let value ← el.2.getString
      return result.set key value) ∅ = .ok (es.foldl (fun n e => n.set e.1 e.2) ∅) := by
    rw [List.foldlM_map]
    refine Decode.foldlM_ok fun e he result => ?_
    have hkey : stoull (ringMember e).1 = .ok e.1 := stoull_toString (hsize e (hperm.mem_iff.1 he))
    rw [hkey]
    rfl
  unfold convert_json_to_ring JsonText.parseFrame
  rw [hframe]
  change j.items.foldlM _ _ = _
  rw [hitems, hloop, SortedMap.foldl_set_of_perm hperm]

theorem convert_json_to_servers_convert {servers : List String} {frame : String}
    (hframe : text.parse frame = some (convert_servers_to_json servers)) :
    convert_json_to_servers text frame = .ok servers := by
  unfold convert_json_to_servers JsonText.parseFrame
  rw [hframe]
  change (servers.map Json.str).mapM Json.getString = _
  rw [List.mapM_map, Decode.mapM_ok (g := id), List.map_id]
  exact fun _ _ => rfl

/-! ## Messages -/

/-- The JOIN_RING message of a worker says that its address joins. -/
theorem join_ring_frames {worker_pull_bind : String} (hbind : worker_pull_bind ≠ "") :
    ∃ msg, send_to_worker text k_mdpw_join_ring worker_pull_bind none [] = .ok msg ∧
      readRingMessage text msg = .ok (some (.join_ring (cStr worker_pull_bind))) := by
  refine ⟨envelope k_mdpw_join_ring [cStr worker_pull_bind], ?_, ?_⟩
  · change Except.ok (envelope _ (if worker_pull_bind = "" then [] else [cStr worker_pull_bind])) = _
    rw [if_neg hbind]
  · unfold readRingMessage
    rw [openEnvelope_envelope k_mdpw_join_ring (by decide)]
    change Except.ok (some (RingMessage.join_ring (cStr (cStr worker_pull_bind)))) = _
    rw [ZMsg.cStr_cStr]

theorem openEnvelope_ne {command command' : String} (h : cStr (cStr command) ≠ command')
    (msg : ZMsg) : openEnvelope command' (envelope command msg) = none := by
  unfold envelope openEnvelope ZMsg.push_front
  dsimp only
  exact if_neg fun ⟨_, _, hcommand⟩ => h hcommand

/-- The BROADCAST_RING message of a worker carries its ring and its servers. -/
theorem broadcast_ring_frames (ch : ConsistentHashing)
    (hsize : ∀ e ∈ ch.ring.entries, e.1 < 2 ^ 64) {worker_pull_bind : String}
    (hbind : worker_pull_bind ≠ "")
    (hring : ∀ j, convert_ring_to_json ch.ring = .ok j → Prints text j)
    (hservers : Prints text (convert_servers_to_json ch.servers)) :
    ∃ msg, send_to_worker text k_mdpw_broadcast_ring worker_pull_bind (some ch) [] = .ok msg ∧
      readRingMessage text msg = .ok (some (.broadcast_ring ch.ring ch.servers)) := by
  obtain ⟨j, _, hj, -⟩ := convert_ring_to_json_spec ch.ring
  obtain ⟨hring_cStr, hring_parse⟩ := hring j hj
  obtain ⟨hservers_cStr, hservers_parse⟩ := hservers
  refine ⟨envelope k_mdpw_broadcast_ring [cStr worker_pull_bind, text.dump j,
    text.dump (convert_servers_to_json ch.servers)], ?_, ?_⟩
  · unfold send_to_worker ZMsg.push_front
    dsimp only
    rw [hj]
    change Except.ok (envelope _ (if worker_pull_bind = "" then _ else
      [_, cStr (text.dump j), cStr (text.dump (convert_servers_to_json ch.servers))])) = _
    rw [if_neg hbind, hring_cStr, hservers_cStr]
  · have hread : readBroadcastRing text [cStr worker_pull_bind, text.dump j,
        text.dump (convert_servers_to_json ch.servers)] =
          .ok (.broadcast_ring ch.ring ch.servers) := by
      unfold readBroadcastRing
      dsimp only
      rw [convert_json_to_ring_convert hsize hj hring_parse,
        convert_json_to_servers_convert hservers_parse]
      rfl
    unfold readRingMessage
    rw [openEnvelope_ne (by decide), openEnvelope_envelope k_mdpw_broadcast_ring (by decide)]
    dsimp only
    rw [hread]
    rfl

/-- **A ring broadcast decodes to the sender's ring.** Whatever ring and servers a worker has, the
worker that gets its BROADCAST_RING message ends with that ring and those servers. -/
theorem broadcast_ring_decodes (sender receiver : ConsistentHashing) (own : String)
    (hsize : ∀ e ∈ sender.ring.entries, e.1 < 2 ^ 64) {worker_pull_bind : String}
    (hbind : worker_pull_bind ≠ "")
    (hring : ∀ j, convert_ring_to_json sender.ring = .ok j → Prints text j)
    (hservers : Prints text (convert_servers_to_json sender.servers)) :
    ∃ msg ch,
      send_to_worker text k_mdpw_broadcast_ring worker_pull_bind (some sender) [] = .ok msg ∧
        recvRingMessage generateHash text own receiver msg = .ok (ch, []) ∧
          ch.ring = sender.ring ∧ ch.servers = sender.servers := by
  obtain ⟨msg, hmsg, hread⟩ := broadcast_ring_frames sender hsize hbind hring hservers
  let ch := receiver.onBroadcastRing generateHash own sender.ring sender.servers
  have hkept : ch.ring = sender.ring ∧ ch.servers = sender.servers :=
    ConsistentHashing.connectAll_keeps own _ _
  refine ⟨msg, ch, hmsg, ?_, hkept⟩
  unfold recvRingMessage
  rw [hread]
  rfl

/-- A ring whose hashes stand in another order as numbers than as keys of an object. -/
def twoServers : ConsistentHashing where
  ring := (SortedMap.set ∅ 9 "tcp://localhost:5001").set 10 "tcp://localhost:5002"
  servers := ["tcp://localhost:5001", "tcp://localhost:5002"]
  push_sockets := ∅
  numberOfVirtualNodes := 1

def twoServersRing : Json :=
  .obj [("10", .str "tcp://localhost:5002"), ("9", .str "tcp://localhost:5001")]

/-- The text form of that ring and its servers. -/
def twoServersText : JsonText where
  parse s :=
    if s = "\x7b\"10\":\"tcp://localhost:5002\",\"9\":\"tcp://localhost:5001\"\x7d" then
      some twoServersRing
    else if s = "[\"tcp://localhost:5001\",\"tcp://localhost:5002\"]" then
      some (convert_servers_to_json twoServers.servers)
    else none
  dump j :=
    match j with
    | .obj _ => "\x7b\"10\":\"tcp://localhost:5002\",\"9\":\"tcp://localhost:5001\"\x7d"
    | _ => "[\"tcp://localhost:5001\",\"tcp://localhost:5002\"]"

theorem convert_twoServers : convert_ring_to_json twoServers.ring = .ok twoServersRing := rfl

theorem broadcast_ring_decodes_two : ∃ msg ch,
    send_to_worker twoServersText k_mdpw_broadcast_ring "tcp://*:5001" (some twoServers) [] =
        .ok msg ∧
      recvRingMessage String.length twoServersText "tcp://localhost:5003" (.new 1) msg =
          .ok (ch, []) ∧
        ch.ring = twoServers.ring ∧ ch.servers = twoServers.servers := by
  refine broadcast_ring_decodes twoServers _ _ (by decide) (by decide) (fun j hj => ?_)
    ⟨by decide, rfl⟩
  obtain rfl := Except.ok.inj (hj.symm.trans convert_twoServers)
  exact ⟨by decide, rfl⟩

end Worker

end ShoppingApp
