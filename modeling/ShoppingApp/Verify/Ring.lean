import ShoppingApp.Worker.Ring

/-!
# Rings and the sockets to their servers

What each message about the ring makes of a worker's ring and sockets: its ring has its servers
under their hashes, and a socket to each but itself (`Node`). JOIN_RING adds one server
(`Node.onJoinRing`); BROADCAST_RING leaves exactly the servers it carries (`Node.onBroadcastRing`).
-/

namespace ShoppingApp

namespace ConsistentHashing

/-- The addresses on a ring. -/
def addresses (ring : SortedMap Nat String) : List String := ring.entries.map Prod.snd

theorem mem_addresses {ring : SortedMap Nat String} {a : String} :
    a ∈ addresses ring ↔ ∃ hash, ring.find? hash = some a := by
  unfold addresses
  rw [List.mem_map]
  constructor
  · rintro ⟨⟨hash, b⟩, he, rfl⟩
    exact ⟨hash, ring.find?_eq_some.2 he⟩
  · rintro ⟨hash, h⟩
    exact ⟨(hash, a), ring.find?_eq_some.1 h, rfl⟩

/-- A ring has known servers, listed beside it, under their hashes. -/
structure View (generateHash : Hash) (known : String → Prop) (ring : SortedMap Nat String)
    (servers : List String) : Prop where
  hash : ∀ k a, ring.find? k = some a → k = generateHash a
  known : ∀ a ∈ addresses ring, known a
  servers : ∀ a, a ∈ servers ↔ a ∈ addresses ring

/-- Sockets lead to known servers and are kept under their hashes. -/
def Endpoints (generateHash : Hash) (known : String → Prop) (sockets : SortedMap Nat Socket) :
    Prop :=
  ∀ k socket, sockets.find? k = some socket → k = generateHash socket.endpoint ∧
    known socket.endpoint

/-- What a worker holds: a ring, and sockets to its servers but itself. -/
structure Node (generateHash : Hash) (known : String → Prop) (own : String)
    (ch : ConsistentHashing) : Prop where
  view : View generateHash known ch.ring ch.servers
  endpoint : Endpoints generateHash known ch.push_sockets
  socket : ∀ a ∈ addresses ch.ring, a ≠ own → ch.push_sockets.find? (generateHash a) = some ⟨a⟩

variable {generateHash : Hash} {known known' : String → Prop} {own : String}
  {ch : ConsistentHashing} {ring : SortedMap Nat String} {servers : List String}

theorem View.mono (h : View generateHash known ring servers) (hk : ∀ a, known a → known' a) :
    View generateHash known' ring servers :=
  ⟨h.hash, fun a ha => hk a (h.known a ha), h.servers⟩

theorem Node.mono (h : Node generateHash known own ch) (hk : ∀ a, known a → known' a) :
    Node generateHash known' own ch :=
  ⟨h.view.mono hk, fun k socket hs => ⟨(h.endpoint k socket hs).1, hk _ (h.endpoint k socket hs).2⟩,
    h.socket⟩

/-- Views with the same addresses have the same ring. -/
theorem View.ring_ext {ring' : SortedMap Nat String} {servers' : List String}
    (h : View generateHash known ring servers) (h' : View generateHash known ring' servers')
    (heq : ∀ a, a ∈ addresses ring ↔ a ∈ addresses ring') : ring = ring' := by
  have hsub : ∀ {r r' : SortedMap Nat String} {ss ss' : List String},
      View generateHash known r ss → View generateHash known r' ss' →
      (∀ a, a ∈ addresses r → a ∈ addresses r') → ∀ {k a}, r.find? k = some a →
      r'.find? k = some a := by
    intro r r' ss ss' hr hr' hrr k a hk
    obtain ⟨k', hk'⟩ := mem_addresses.1 (hrr a (mem_addresses.2 ⟨k, hk⟩))
    rw [hr.hash k a hk, ← hr'.hash k' a hk']
    exact hk'
  apply SortedMap.ext_find
  intro k
  cases hk : ring.find? k with
  | some a => exact (hsub h h' (fun b => (heq b).1) hk).symm
  | none =>
    cases hk' : ring'.find? k with
    | none => rfl
    | some a =>
      rw [hsub h' h (fun b => (heq b).2) hk'] at hk
      cases hk

section Handlers

variable (hinj : ∀ a b, known a → known b → generateHash a = generateHash b → a = b)

include hinj in
theorem View.addServer (h : View generateHash known ch.ring ch.servers) {a : String}
    (ha : known a) :
    View generateHash known (ch.addServer generateHash a).ring
        (ch.addServer generateHash a).servers ∧
      ∀ b, b ∈ addresses (ch.addServer generateHash a).ring ↔ b = a ∨ b ∈ addresses ch.ring := by
  unfold ConsistentHashing.addServer
  split_ifs with hmem
  · refine ⟨h, fun b => ⟨.inr, ?_⟩⟩
    rintro (rfl | hb)
    · exact (h.servers b).1 hmem
    · exact hb
  · have hfind : ∀ k, (ch.ring.set (generateHash a) a).find? k =
        if k = generateHash a then some a else ch.ring.find? k := fun k => by
      rw [SortedMap.find?_set]
    have haddr : ∀ b, b ∈ addresses (ch.ring.set (generateHash a) a) ↔
        b = a ∨ b ∈ addresses ch.ring := by
      intro b
      rw [mem_addresses, mem_addresses]
      constructor
      · rintro ⟨k, hk⟩
        rw [hfind] at hk
        split_ifs at hk
        · cases hk
          exact .inl rfl
        · exact .inr ⟨k, hk⟩
      · rintro (rfl | ⟨k, hk⟩)
        · exact ⟨generateHash b, by rw [hfind, if_pos rfl]⟩
        · by_cases hka : k = generateHash a
          · -- an address under that hash is the one that is added
            have hba : b = a := hinj b a (h.known b (mem_addresses.2 ⟨k, hk⟩)) ha
              ((h.hash k b hk).symm.trans hka)
            exact ⟨k, by rw [hfind, if_pos hka, hba]⟩
          · exact ⟨k, by rw [hfind, if_neg hka]; exact hk⟩
    refine ⟨⟨?_, ?_, ?_⟩, haddr⟩
    · intro k b hk
      rw [hfind] at hk
      split_ifs at hk with hka
      · cases hk
        exact hka
      · exact h.hash k b hk
    · intro b hb
      rcases (haddr b).1 hb with rfl | hb
      · exact ha
      · exact h.known b hb
    · intro b
      rw [haddr, ← h.servers b, List.mem_append, List.mem_singleton, or_comm]

/-- A socket for a known server keeps all sockets in order. -/
theorem Endpoints.set {sockets : SortedMap Nat Socket} (h : Endpoints generateHash known sockets)
    {a : String} (ha : known a) :
    Endpoints generateHash known (sockets.set (generateHash a) ⟨a⟩) := by
  intro k socket hk
  rw [SortedMap.find?_set] at hk
  split_ifs at hk with hka
  · cases hk
    exact ⟨hka, ha⟩
  · exact h k socket hk

include hinj in
/-- **JOIN_RING**: the server is added, and the whole ring is sent to all servers on it. -/
theorem Node.onJoinRing (h : Node generateHash known own ch) {a : String} (ha : known a)
    (hlocal : localEndpoint a = a) :
    Node generateHash known own (ch.onJoinRing generateHash a).1 ∧
      (∀ b, b ∈ addresses (ch.onJoinRing generateHash a).1.ring ↔
        b = a ∨ b ∈ addresses ch.ring) ∧
      (∀ b ∈ addresses (ch.onJoinRing generateHash a).1.ring, b ≠ own →
        (⟨b⟩, .broadcast_ring (ch.onJoinRing generateHash a).1.ring
          (ch.onJoinRing generateHash a).1.servers) ∈ (ch.onJoinRing generateHash a).2) ∧
      ∀ sent ∈ (ch.onJoinRing generateHash a).2, known sent.1.endpoint ∧
        sent.2 = .broadcast_ring (ch.onJoinRing generateHash a).1.ring
          (ch.onJoinRing generateHash a).1.servers := by
  obtain ⟨hview, haddr⟩ := h.view.addServer hinj ha
  have hsockets : (ch.addServer generateHash a).push_sockets = ch.push_sockets := by
    unfold ConsistentHashing.addServer
    split_ifs <;> rfl
  have hfind : ∀ k, (ch.onJoinRing generateHash a).1.push_sockets.find? k =
      if k = generateHash a then some ⟨a⟩ else ch.push_sockets.find? k := by
    intro k
    change ((ch.addServer generateHash a).push_sockets.set (generateHash a)
      ⟨localEndpoint a⟩).find? k = _
    rw [SortedMap.find?_set, hlocal, hsockets]
  have hnode : Node generateHash known own (ch.onJoinRing generateHash a).1 := by
    refine ⟨hview, fun k socket hk => ?_, fun b hb hne => ?_⟩
    · rw [hfind] at hk
      split_ifs at hk with hka
      · cases hk
        exact ⟨hka, ha⟩
      · exact h.endpoint k socket hk
    · rw [hfind]
      split_ifs with hba
      · rw [hinj b a (hview.known b hb) ha hba]
      · rcases (haddr b).1 hb with rfl | hb
        · exact absurd rfl hba
        · exact h.socket b hb hne
  refine ⟨hnode, haddr, fun b hb hne => ?_, fun sent hsent => ?_⟩
  · have hentry := (SortedMap.find?_eq_some _).1 (hnode.socket b hb hne)
    exact List.mem_map.2 ⟨⟨b⟩, List.mem_map.2 ⟨_, hentry, rfl⟩, rfl⟩
  · obtain ⟨socket, hsocket, rfl⟩ := List.mem_map.1 hsent
    obtain ⟨⟨k, socket'⟩, hentry, rfl⟩ := List.mem_map.1 hsocket
    exact ⟨(hnode.endpoint k socket' ((SortedMap.find?_eq_some _).2 hentry)).2, rfl⟩

/-- The loop over the servers of a ring changes the sockets only. -/
theorem connectAll_keeps (own : String) : ∀ (es : List (Nat × String)) (ch : ConsistentHashing),
    (ch.connectAll generateHash own es).ring = ch.ring ∧
      (ch.connectAll generateHash own es).servers = ch.servers
  | [], _ => ⟨rfl, rfl⟩
  | (hash, address) :: es, ch => by
    unfold connectAll
    split_ifs
    · exact connectAll_keeps own es ch
    · exact connectAll_keeps own es (ch.addPushSocketViaServer generateHash address ⟨address⟩)

/-- What the loop over the servers of a ring does to the sockets, wherever they lead. -/
structure Reaches (own : String) (es : List (Nat × String)) (ch ch' : ConsistentHashing) :
    Prop where
  ring : ch'.ring = ch.ring
  servers : ch'.servers = ch.servers
  kept : ∀ k socket, ch.push_sockets.find? k = some socket →
    ch'.push_sockets.find? k = some socket
  found : ∀ e ∈ es, e.2 ≠ own → ∃ socket, ch'.push_sockets.find? e.1 = some socket

theorem connectAll_reaches {es : List (Nat × String)} (hes : ∀ e ∈ es, e.1 = generateHash e.2) :
    ∀ ch : ConsistentHashing, Reaches own es ch (ch.connectAll generateHash own es) := by
  induction es with
  | nil => exact fun ch => ⟨rfl, rfl, fun _ _ hk => hk, fun e he => absurd he List.not_mem_nil⟩
  | cons e es ih =>
    intro ch
    obtain ⟨k, a⟩ := e
    obtain rfl : k = generateHash a := hes (k, a) List.mem_cons_self
    have ih := ih fun e he => hes e (List.mem_cons_of_mem _ he)
    unfold connectAll
    split_ifs with hskip
    · obtain ⟨hring, hservers, hkept, hfound⟩ := ih ch
      refine ⟨hring, hservers, hkept, fun e he hne => ?_⟩
      rcases List.mem_cons.1 he with rfl | he
      · rcases hskip with hown | hsome
        · exact absurd hown hne
        · obtain ⟨socket, hsocket⟩ := Option.isSome_iff_exists.1 hsome
          exact ⟨socket, hkept _ _ hsocket⟩
      · exact hfound e he hne
    · obtain ⟨hring, hservers, hkept, hfound⟩ :=
        ih (ch.addPushSocketViaServer generateHash a ⟨a⟩)
      refine ⟨hring, hservers, fun k socket hk => hkept k socket ?_, fun e he hne => ?_⟩
      · change (ch.push_sockets.set (generateHash a) ⟨a⟩).find? k = some socket
        rw [SortedMap.find?_set, if_neg]
        · exact hk
        · rintro rfl
          exact hskip (.inr (Option.isSome_iff_exists.2 ⟨socket, hk⟩))
      · rcases List.mem_cons.1 he with rfl | he
        · exact ⟨⟨a⟩, hkept _ _ (SortedMap.find?_set_self ch.push_sockets _ _)⟩
        · exact hfound e he hne

/-- The loop makes sockets to known servers only. -/
theorem Endpoints.connectAll {es : List (Nat × String)} (hes : ∀ e ∈ es, known e.2) :
    ∀ {ch : ConsistentHashing}, Endpoints generateHash known ch.push_sockets →
      Endpoints generateHash known (ch.connectAll generateHash own es).push_sockets := by
  induction es with
  | nil => exact fun h => h
  | cons e es ih =>
    intro ch h
    have ih := @ih fun e he => hes e (List.mem_cons_of_mem _ he)
    unfold ConsistentHashing.connectAll
    split_ifs
    · exact ih h
    · exact ih (h.set (hes e List.mem_cons_self))

/-- What the loop over the servers of a ring does to the sockets. -/
structure Connects (generateHash : Hash) (known : String → Prop) (own : String)
    (es : List (Nat × String)) (ch ch' : ConsistentHashing) : Prop where
  ring : ch'.ring = ch.ring
  servers : ch'.servers = ch.servers
  endpoint : Endpoints generateHash known ch'.push_sockets
  kept : ∀ k socket, ch.push_sockets.find? k = some socket →
    ch'.push_sockets.find? k = some socket
  found : ∀ e ∈ es, e.2 ≠ own → ∃ socket, ch'.push_sockets.find? e.1 = some socket

theorem connectAll_connects {es : List (Nat × String)}
    (hes : ∀ e ∈ es, e.1 = generateHash e.2 ∧ known e.2) :
    ∀ {ch : ConsistentHashing}, Endpoints generateHash known ch.push_sockets →
      Connects generateHash known own es ch (ch.connectAll generateHash own es) := by
  intro ch h
  have hreaches : Reaches own es ch (ch.connectAll generateHash own es) :=
    connectAll_reaches (fun e he => (hes e he).1) ch
  obtain ⟨hring, hservers, hkept, hfound⟩ := hreaches
  exact ⟨hring, hservers, h.connectAll fun e he => (hes e he).2, hkept, hfound⟩

include hinj in
/-- **BROADCAST_RING**: the ring that is received takes the place of the one that was there. -/
theorem Node.onBroadcastRing (h : Node generateHash known own ch)
    (hview : View generateHash known ring servers) :
    Node generateHash known own (ch.onBroadcastRing generateHash own ring servers) ∧
      (ch.onBroadcastRing generateHash own ring servers).ring = ring := by
  have hes : ∀ e ∈ ring.entries, e.1 = generateHash e.2 ∧ known e.2 := fun e he =>
    ⟨hview.hash e.1 e.2 ((SortedMap.find?_eq_some _).2 he),
      hview.known e.2 (List.mem_map_of_mem he)⟩
  have hconnects : Connects generateHash known own ring.entries (ch.updateCH ring servers)
      (ch.onBroadcastRing generateHash own ring servers) :=
    connectAll_connects hes h.endpoint
  refine ⟨⟨?_, hconnects.endpoint, fun a ha hne => ?_⟩, hconnects.ring⟩
  · rw [hconnects.ring, hconnects.servers]
    exact hview
  · rw [hconnects.ring] at ha
    obtain ⟨k, hk⟩ := mem_addresses.1 ha
    obtain ⟨socket, hsocket⟩ :=
      hconnects.found (k, a) ((SortedMap.find?_eq_some _).1 hk) hne
    obtain ⟨hks, hknown⟩ := hconnects.endpoint k socket hsocket
    have hka := hview.hash k a hk
    have hsame : socket.endpoint = a :=
      hinj socket.endpoint a hknown (hview.known a ha) (hks.symm.trans hka)
    rw [← hka, hsocket, ← hsame]

theorem Endpoints.empty : Endpoints generateHash known ∅ := by
  intro k socket hk
  rw [SortedMap.find?_empty] at hk
  cases hk

include hinj in
/-- A new ring with one server. -/
theorem View.addServer_new {a : String} (ha : known a) :
    View generateHash known ((new 1).addServer generateHash a).ring
        ((new 1).addServer generateHash a).servers ∧
      ∀ b, b ∈ addresses ((new 1).addServer generateHash a).ring ↔ b = a := by
  have hempty : View generateHash known (new 1).ring (new 1).servers := by
    refine ⟨fun k a hk => ?_, fun a ha => ?_, fun a => Iff.rfl⟩
    · rw [show (new 1).ring = ∅ from rfl, SortedMap.find?_empty] at hk
      cases hk
    · cases ha
  obtain ⟨hview, haddr⟩ := hempty.addServer hinj ha
  refine ⟨hview, fun b => ?_⟩
  rw [haddr]
  exact or_iff_left List.not_mem_nil

include hinj in
/-- The first worker holds itself. -/
theorem Node.first (hown : known own) :
    Node generateHash known own (connect_to_broker generateHash own "").1 ∧
      (∀ b, b ∈ addresses (connect_to_broker generateHash own "").1.ring ↔ b = own) ∧
      (connect_to_broker generateHash own "").2 = [] := by
  obtain ⟨hview, honly⟩ := View.addServer_new hinj hown
  refine ⟨⟨hview, .empty, fun b hb hne => ?_⟩, honly, rfl⟩
  exact absurd ((honly b).1 hb) hne

include hinj in
/-- A joining worker holds the worker it joins through, and sends it its address. -/
theorem Node.joining (own : String) {via : String} (hknown : known via) (hvia : via ≠ "") :
    Node generateHash known own (connect_to_broker generateHash own via).1 ∧
      (∀ b, b ∈ addresses (connect_to_broker generateHash own via).1.ring ↔ b = via) ∧
      (connect_to_broker generateHash own via).2 = [(⟨via⟩, .join_ring own)] := by
  obtain ⟨hview, honly⟩ := View.addServer_new hinj hknown
  unfold connect_to_broker reconnect_to_broker
  rw [if_pos hvia]
  have hsockets : (((new 1).addServer generateHash via).addPushSocketViaServer generateHash via
      ⟨via⟩).push_sockets = (∅ : SortedMap Nat Socket).set (generateHash via) ⟨via⟩ := by
    change SortedMap.set ((new 1).addServer generateHash via).push_sockets _ _ = _
    unfold ConsistentHashing.addServer
    split_ifs <;> rfl
  refine ⟨⟨hview, ?_, fun b hb _ => ?_⟩, honly, rfl⟩
  · rw [hsockets]
    exact Endpoints.empty.set hknown
  · rw [hsockets, (honly b).1 hb]
    exact SortedMap.find?_set_self _ _ _

end Handlers

/-! ## Whatever the hashes and the endpoints are -/

/-- The addresses of a ring are under their hashes. -/
def Hashed (generateHash : Hash) (ring : SortedMap Nat String) : Prop :=
  ∀ k a, ring.find? k = some a → k = generateHash a

/-- A ring with its addresses under their hashes, and a socket for each address but the own one. -/
structure Wired (generateHash : Hash) (own : String) (ch : ConsistentHashing) : Prop where
  hash : Hashed generateHash ch.ring
  socket : ∀ a ∈ addresses ch.ring, a ≠ own →
    (ch.getPushSocketViaServer generateHash a).isSome = true

theorem Hashed.empty : Hashed generateHash ∅ := by
  intro k a hk
  rw [SortedMap.find?_empty] at hk
  cases hk

theorem Hashed.set (h : Hashed generateHash ring) (a : String) :
    Hashed generateHash (ring.set (generateHash a) a) := by
  intro k b hk
  rw [SortedMap.find?_set] at hk
  split_ifs at hk with hka
  · cases hk
    exact hka
  · exact h k b hk

/-- What `addServer` leaves as it is, and what it can add. -/
theorem addServer_spec (ch : ConsistentHashing) (a : String) (h : Hashed generateHash ch.ring) :
    Hashed generateHash (ch.addServer generateHash a).ring ∧
      (∀ b ∈ addresses (ch.addServer generateHash a).ring, b = a ∨ b ∈ addresses ch.ring) ∧
      (ch.addServer generateHash a).push_sockets = ch.push_sockets := by
  unfold addServer
  split_ifs with hmem
  · exact ⟨h, fun b hb => .inr hb, rfl⟩
  · refine ⟨h.set a, fun b hb => ?_, rfl⟩
    obtain ⟨k, hk⟩ := mem_addresses.1 hb
    rw [SortedMap.find?_set] at hk
    split_ifs at hk
    · cases hk
      exact .inl rfl
    · exact .inr (mem_addresses.2 ⟨k, hk⟩)

/-- A ring with a server is not empty, nor one to which the first server is added. -/
theorem addServer_ne_nil {ch : ConsistentHashing} (a : String)
    (h : ch.ring.entries ≠ [] ∨ ch.servers = []) :
    (ch.addServer generateHash a).ring.entries ≠ [] := by
  unfold addServer
  split_ifs with hmem
  · rcases h with h | h
    · exact h
    · rw [h] at hmem
      exact absurd hmem List.not_mem_nil
  · intro hnil
    have hset := SortedMap.find?_set_self ch.ring (generateHash a) a
    rw [SortedMap.find?_eq_some, hnil] at hset
    exact absurd hset List.not_mem_nil

theorem Wired.new : Wired generateHash own (new 1) := ⟨Hashed.empty, nofun⟩

/-- The worker itself is added. -/
theorem Wired.addServer_own (h : Wired generateHash own ch) :
    Wired generateHash own (ch.addServer generateHash own) := by
  obtain ⟨hhash, haddr, hsockets⟩ := addServer_spec ch own h.hash
  refine ⟨hhash, fun b hb hne => ?_⟩
  have hold := h.socket b ((haddr b hb).resolve_left hne) hne
  unfold getPushSocketViaServer getPushSocket at hold ⊢
  rw [hsockets]
  exact hold

/-- A server and a socket for it are added. -/
theorem Wired.add (h : Wired generateHash own ch) (a : String) (socket : Socket) :
    Wired generateHash own
      ((ch.addServer generateHash a).addPushSocketViaServer generateHash a socket) := by
  obtain ⟨hhash, haddr, hsockets⟩ := addServer_spec ch a h.hash
  refine ⟨hhash, fun b hb hne => ?_⟩
  change (((ch.addServer generateHash a).push_sockets.set (generateHash a) socket).find?
    (generateHash b)).isSome = true
  rw [SortedMap.find?_set, hsockets]
  split_ifs with hba
  · rfl
  · rcases haddr b hb with rfl | hb
    · exact absurd rfl hba
    · exact h.socket b hb hne

/-- **A ring is replaced**: whatever servers that adds or drops, those on it get sockets. -/
theorem Wired.onBroadcastRing (hring : Hashed generateHash ring) (ch : ConsistentHashing)
    (servers : List String) :
    Wired generateHash own (ch.onBroadcastRing generateHash own ring servers) ∧
      (ch.onBroadcastRing generateHash own ring servers).ring = ring := by
  have hreaches : Reaches own ring.entries (ch.updateCH ring servers)
      (ch.onBroadcastRing generateHash own ring servers) :=
    connectAll_reaches (fun e he => hring e.1 e.2 ((SortedMap.find?_eq_some _).2 he)) _
  have hsame : (ch.onBroadcastRing generateHash own ring servers).ring = ring := hreaches.ring
  refine ⟨⟨?_, fun a ha hne => ?_⟩, hsame⟩
  · rw [hsame]
    exact hring
  · rw [hsame] at ha
    obtain ⟨k, hk⟩ := mem_addresses.1 ha
    obtain ⟨socket, hsocket⟩ :=
      hreaches.found (k, a) ((SortedMap.find?_eq_some _).1 hk) hne
    rw [hring k a hk] at hsocket
    exact Option.isSome_iff_exists.2 ⟨socket, hsocket⟩

end ConsistentHashing

end ShoppingApp
