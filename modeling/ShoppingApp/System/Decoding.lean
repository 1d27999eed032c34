import ShoppingApp.Lib.Outcome
import ShoppingApp.System.Quantities

/-!
# Decoding from anywhere and into anything

`from_json` on values that no list was encoded to, and on lists that are in use. It is defined on
exactly the values whose item context has what `DotContext::fromJson` indexes without looking
(`decode_defined_iff`); when it throws, the items stay, but the header is already the new one
(`failed_decode_iff`); and since the counters of the temporary list have contexts of their own, it
merges what it reads as `join` does only where that makes no difference (`decode_merges_iff`).
-/

/-! ## What is read without a look -/

namespace Json

def isNumber : Json → Bool
  | int _ | float _ => true
  | _ => false

/-- What is read as a dot: a string and a number. -/
def isDot : Json → Bool
  | arr (str _ :: n :: _) => n.isNumber
  | _ => false

/-- What is read as an element of a dot cloud. -/
def isDotPair : Json → Bool
  | arr (d :: e :: _) => d.isDot && e.isDot
  | _ => false

/-- An array that ends where the element of a dot cloud is still read. -/
def isCut : Json → Bool
  | arr [] => true
  | arr [d] => d.isDot
  | _ => false

/-- What is read as a vector clock. -/
def isClock : Json → Bool
  | obj members => members.all fun e => e.2.isNumber
  | _ => false

/-- No element is cut, up to the first one that is refused. -/
def cloudIndexed : List Json → Bool
  | [] => true
  | d :: ds => !d.isCut && (!d.isDotPair || cloudIndexed ds)

/-- There is a clock, and if it can be read there is a cloud to index. -/
def contextIndexed (c : Json) : Bool :=
  match c.find? "vc" with
  | none => false
  | some vc => !vc.isClock ||
    match c.find? "dc" with
    | none => false
    | some dc => cloudIndexed dc.elements

/-- The item context of `j`, if `from_json` looks at it. -/
def itemContext (j : Json) : Option Json := (j.objectAt "items").bind (objectAt · "context")

def Indexed (j : Json) : Prop := ∀ c, j.itemContext = some c → c.contextIndexed = true

theorem getLong_of_isNumber {j : Json} (h : j.isNumber = true) : ∃ n, j.getLong = .ok n := by
  cases j with
  | int n => exact ⟨n, rfl⟩
  | float x => exact ⟨_, rfl⟩
  | _ => cases h

theorem getLong_of_not_isNumber {j : Json} (h : j.isNumber = false) :
    j.getLong = .error .exception := by
  cases j with
  | int n => cases h
  | float x => cases h
  | _ => rfl

end Json

namespace ShoppingApp

open Replication

namespace Dot

theorem ofJson_pair (s : String) (n : Json) (rest : List Json) :
    ofJson (.arr (.str s :: n :: rest)) = (do
      let second ← n.getLong
      return (⟨s, second⟩ : Dot) : Decode Dot) := rfl

theorem ofJson_of_isDot {j : Json} (h : j.isDot = true) : ∃ d, ofJson j = .ok d := by
  unfold Json.isDot at h
  split at h
  · rename_i s n rest
    obtain ⟨m, hm⟩ := Json.getLong_of_isNumber h
    rw [ofJson_pair, hm]
    exact ⟨⟨s, m⟩, rfl⟩
  · cases h

theorem ofJson_of_not_isDot {j : Json} (h : j.isDot = false) :
    ofJson j = .error .exception := by
  cases j with
  | arr elems =>
    match elems with
    | [] => rfl
    | [d] => cases d <;> rfl
    | d :: n :: rest =>
      cases d with
      | str s =>
        have hn : n.getLong = .error .exception := Json.getLong_of_not_isNumber h
        rw [ofJson_pair, hn]
        rfl
      | _ => rfl
  | _ => rfl

end Dot

namespace DotContext

/-! ## Reading a dot cloud -/

theorem insertElem_single (dc : SortedSet Dot) (e : Json) :
    insertElem dc (.arr [e]) = (do
      let d0 ← Dot.ofJson e
      let d1 ← (.error .undefined : Decode Dot)
      return (dc.insert d0).insert d1 : Decode (SortedSet Dot)) := rfl

theorem insertElem_pair (dc : SortedSet Dot) (e e' : Json) (rest : List Json) :
    insertElem dc (.arr (e :: e' :: rest)) = (do
      let d0 ← Dot.ofJson e
      let d1 ← Dot.ofJson e'
      return (dc.insert d0).insert d1 : Decode (SortedSet Dot)) := rfl

theorem insertElem_of_isCut {d : Json} (h : d.isCut = true) (dc : SortedSet Dot) :
    insertElem dc d = .error .undefined := by
  unfold Json.isCut at h
  split at h
  · rfl
  · rename_i e
    obtain ⟨x, hx⟩ := Dot.ofJson_of_isDot h
    rw [insertElem_single, hx]
    rfl
  · cases h

theorem insertElem_of_isDotPair {d : Json} (h : d.isDotPair = true) (dc : SortedSet Dot) :
    ∃ dc', insertElem dc d = .ok dc' := by
  unfold Json.isDotPair at h
  split at h
  · rename_i e e' rest
    rw [Bool.and_eq_true] at h
    obtain ⟨x, hx⟩ := Dot.ofJson_of_isDot h.1
    obtain ⟨y, hy⟩ := Dot.ofJson_of_isDot h.2
    rw [insertElem_pair, hx, hy]
    exact ⟨(dc.insert x).insert y, rfl⟩
  · cases h

theorem insertElem_of_refused {d : Json} (hcut : d.isCut = false) (hpair : d.isDotPair = false)
    (dc : SortedSet Dot) : insertElem dc d = .error .exception := by
  cases d with
  | arr elems =>
    match elems with
    | [] => cases hcut
    | [e] =>
      have he : Dot.ofJson e = .error .exception := Dot.ofJson_of_not_isDot hcut
      rw [insertElem_single, he]
      rfl
    | e :: e' :: rest =>
      rw [insertElem_pair]
      cases he : e.isDot with
      | false =>
        rw [Dot.ofJson_of_not_isDot he]
        rfl
      | true =>
        obtain ⟨x, hx⟩ := Dot.ofJson_of_isDot he
        have he' : e'.isDot = false := by simpa [Json.isDotPair, he] using hpair
        rw [hx, Dot.ofJson_of_not_isDot he']
        rfl
  | _ => rfl

theorem foldlM_insertElem_undefined_iff (ds : List Json) : ∀ dc : SortedSet Dot,
    ds.foldlM insertElem dc = .error .undefined ↔ Json.cloudIndexed ds = false := by
  induction ds with
  | nil => exact fun dc => ⟨nofun, nofun⟩
  | cons d ds ih =>
    intro dc
    rw [List.foldlM_cons]
    unfold Json.cloudIndexed
    cases hcut : d.isCut with
    | true =>
      rw [insertElem_of_isCut hcut]
      exact ⟨fun _ => rfl, fun _ => rfl⟩
    | false =>
      cases hpair : d.isDotPair with
      | false =>
        rw [insertElem_of_refused hcut hpair]
        exact ⟨nofun, nofun⟩
      | true =>
        obtain ⟨dc', hdc'⟩ := insertElem_of_isDotPair hpair dc
        rw [hdc']
        exact ih dc'

/-! ## Reading a context -/

theorem mapM_getLong (members : List (String × Json)) :
    (members.all (fun e => e.2.isNumber) = true →
      ∃ es, members.mapM (Json.getEntry Json.getLong) = .ok es) ∧
    (members.all (fun e => e.2.isNumber) = false →
      members.mapM (Json.getEntry Json.getLong) = .error .exception) := by
  induction members with
  | nil =>
    refine ⟨fun _ => ⟨[], rfl⟩, fun h => ?_⟩
    cases h
  | cons e members ih =>
    rw [List.mapM_cons, List.all_cons, Json.getEntry]
    cases he : e.2.isNumber with
    | false =>
      rw [Json.getLong_of_not_isNumber he]
      refine ⟨fun h => ?_, fun _ => rfl⟩
      cases h
    | true =>
      obtain ⟨n, hn⟩ := Json.getLong_of_isNumber he
      rw [hn]
      constructor
      · intro hall
        obtain ⟨es, hes⟩ := ih.1 hall
        exact ⟨(e.1, n) :: es, by rw [hes]; rfl⟩
      · intro hsome
        rw [ih.2 hsome]
        rfl

theorem getMap_of_isClock {j : Json} (h : j.isClock = true) :
    ∃ vc, j.getMap Json.getLong = .ok vc := by
  cases j with
  | obj members =>
    obtain ⟨es, hes⟩ := (mapM_getLong members).1 h
    refine ⟨SortedMap.ofList es, ?_⟩
    unfold Json.getMap
    dsimp only
    rw [hes]
    rfl
  | _ => cases h

theorem getMap_of_not_isClock {j : Json} (h : j.isClock = false) :
    j.getMap Json.getLong = .error .exception := by
  cases j with
  | obj members =>
    unfold Json.getMap
    dsimp only
    rw [(mapM_getLong members).2 h]
    rfl
  | _ => rfl

theorem member_of_isObject {j : Json} (h : j.isObject = true) (key : String) :
    j.member key = match j.find? key with
      | some v => .ok v
      | none => .error .undefined := by
  cases j with
  | obj members => rfl
  | _ => cases h

theorem fromJson_undefined_iff {j : Json} (h : j.isObject = true) :
    fromJson ∅ j = .error .undefined ↔ j.contextIndexed = false := by
  unfold fromJson Json.contextIndexed
  rw [member_of_isObject h, member_of_isObject h]
  cases hvc : j.find? "vc" with
  | none => exact ⟨fun _ => rfl, fun _ => rfl⟩
  | some vc =>
    dsimp only [bind, Except.bind]
    cases hclock : vc.isClock with
    | false =>
      rw [getMap_of_not_isClock hclock]
      exact ⟨nofun, nofun⟩
    | true =>
      obtain ⟨clock, hread⟩ := getMap_of_isClock hclock
      rw [hread]
      cases hdc : j.find? "dc" with
      | none => exact ⟨fun _ => rfl, fun _ => rfl⟩
      | some dc =>
        dsimp only
        rw [Bool.not_true, Bool.false_or,
          ← foldlM_insertElem_undefined_iff dc.elements (∅ : DotContext).dc]
        cases dc.elements.foldlM insertElem (∅ : DotContext).dc with
        | ok cloud => exact ⟨nofun, nofun⟩
        | error e =>
          dsimp only
          rw [Except.error.injEq, Except.error.injEq]

end DotContext

/-! ## Reading items -/

/-- Reading throws at worst. -/
abbrev Checked {α : Type} (x : Decode α) : Prop := Ends (· = Fault.exception) (fun _ => True) x

theorem Checked.ne_undefined {α : Type} {x : Decode α} (h : Checked x) : x ≠ .error .undefined :=
  fun hx => nomatch h.of_error hx

theorem Dot.ofJson_checked (j : Json) : Checked (ofJson j) := by
  cases h : j.isDot with
  | true =>
    obtain ⟨d, hd⟩ := ofJson_of_isDot h
    rw [hd]
    trivial
  | false =>
    rw [ofJson_of_not_isDot h]
    rfl

theorem elemAt_checked (j : Json) (index : ℕ) : Checked (j.elemAt index) := by
  unfold Json.elemAt
  split
  · split
    · trivial
    · rfl
  · rfl

theorem getInt_checked (j : Json) : Checked j.getInt := by
  cases j <;> trivial

theorem getPairMap_checked {κ α : Type} [LinearOrder κ] {getKey : Json → Decode κ}
    {get : Json → Decode α} (hkey : ∀ j, Checked (getKey j)) (hget : ∀ j, Checked (get j))
    (j : Json) : Checked (j.getPairMap getKey get) := by
  cases j with
  | arr elems =>
    refine Ends.bind (Ends.mapM (P := fun _ => True) elems fun p _ => ?_) fun _ _ => trivial
    cases p with
    | arr pair =>
      refine (elemAt_checked _ 0).bind fun k _ => (hkey k).bind fun _ _ => ?_
      exact (elemAt_checked _ 1).bind fun v _ => (hget v).bind fun _ _ => trivial
    | _ => rfl
  | _ => rfl

namespace ShoppingList

theorem readItem_checked (map : SortedMap String Cell) (item : String × Json) :
    Checked (readItem map item) :=
  (getPairMap_checked Dot.ofJson_checked getInt_checked item.2).bind fun _ _ => trivial

theorem readMap_checked (items : Json) (context : DotContext) :
    Checked (match items.objectAt "map" with
      | none => do
        let map ← pure ∅
        pure (⟨map, context⟩ : ORMap String)
      | some m => do
        let map ← m.members.foldlM readItem ∅
        pure ⟨map, context⟩) := by
  split
  · trivial
  · rename_i m _
    exact (Ends.foldlM (P := fun _ => True) m.members
      (fun item _ map _ => readItem_checked map item) trivial).bind fun _ _ => trivial

/-- Reading is undefined exactly where the context of the items is indexed without a look. -/
theorem readItems_undefined_iff (j : Json) : readItems j = .error .undefined ↔ ¬ j.Indexed := by
  unfold readItems Json.Indexed Json.itemContext
  cases hitems : j.objectAt "items" with
  | none => exact ⟨nofun, fun h => absurd nofun h⟩
  | some items =>
    dsimp only [Option.bind_some]
    cases hcontext : items.objectAt "context" with
    | none => exact iff_of_false (readMap_checked items ∅).ne_undefined fun h => h nofun
    | some c =>
      have hobject : c.isObject = true := (Option.filter_eq_some_iff.1 hcontext).2
      have hindexed : (¬ ∀ c', some c = some c' → c'.contextIndexed = true) ↔
          c.contextIndexed = false := by
        simp
      rw [hindexed, ← DotContext.fromJson_undefined_iff hobject]
      dsimp only
      cases DotContext.fromJson ∅ c with
      | error e =>
        dsimp only [bind, Except.bind]
        rw [Except.error.injEq, Except.error.injEq]
      | ok context => exact iff_of_false (readMap_checked items context).ne_undefined nofun

/-! ## Decoding anything -/

/-- **Decoding is defined** on exactly the values whose item context can be indexed. -/
theorem decode_defined_iff (j : Json) (u : ShoppingList) :
    (fromJson j u).isSome = true ↔ j.Indexed := by
  rw [fromJson_isSome_iff, Ne, readItems_undefined_iff, not_not]

/-- A context without a clock, and one with an empty array where a dot should be. -/
theorem decode_undefined :
    fromJson (.obj [("items", .obj [("context", .obj [])])]) blank = none ∧
      fromJson (.obj [("items", .obj [("context",
        .obj [("dc", .arr [.arr []]), ("vc", .obj [])])])]) blank = none ∧
      ¬ ∀ (j : Json) (u : ShoppingList), (fromJson j u).isSome = true :=
  ⟨rfl, rfl, fun h => nomatch h (.obj [("items", .obj [("context", .obj [])])]) blank⟩

/-- **A decoding that throws leaves the list alone** exactly if the header it has read by then is
the one the list has. -/
theorem failed_decode_iff {j : Json} (h : readItems j = .error .exception) (u : ShoppingList) :
    fromJson j u = some u ↔ (j.stringAt "id").getD "" = u.id ∧
      (j.stringAt "title").getD "" = u.title ∧ (j.stringAt "url").getD "" = u.url := by
  have hread : ¬ Skipped j := by
    intro hskip
    rw [readItems_of_skipped hskip] at h
    cases h
  rw [fromJson_of_read hread, h]
  dsimp only
  rw [Option.some.injEq, ShoppingList.mk.injEq]
  exact ⟨fun ⟨hid, htitle, hurl, _⟩ => ⟨hid, htitle, hurl⟩,
    fun ⟨hid, htitle, hurl⟩ => ⟨hid, htitle, hurl, rfl⟩⟩

/-- A number where the dots of an item should be, under the header the list has. -/
theorem failed_decode_same_header :
    let j := Json.obj [("id", .str "user1"), ("items", .obj [("map", .obj [("apple", .int 5)])]),
      ("title", .str "party"), ("url", .str "msla-user1")]
    fromJson j (ShoppingList.new "user1" "party" "msla-user1") =
      some (ShoppingList.new "user1" "party" "msla-user1") :=
  (failed_decode_iff rfl _).2 ⟨rfl, rfl, rfl⟩

/-- A number where the clock should be, under another header: the list takes the header. -/
theorem failed_decode_takes_header :
    let j := Json.obj [("id", .str "user2"),
      ("items", .obj [("context", .obj [("dc", .arr []), ("vc", .int 5)])]),
      ("title", .str "party"), ("url", .str "msla-user2")]
    readItems j = .error .exception ∧
      fromJson j (ShoppingList.new "user1" "picnic" "msla-user1") =
        some (ShoppingList.new "user2" "party" "msla-user2") ∧
      ¬ ∀ (j : Json) (u : ShoppingList),
        readItems j = .error .exception → fromJson j u = some u := by
  intro j
  refine ⟨rfl, rfl, fun h => ?_⟩
  exact absurd (h j (ShoppingList.new "user1" "picnic" "msla-user1") rfl) (by decide)

/-! ## Decoding into a list in use -/

/-- Under an item that it has, a decoded list has seen nothing. -/
theorem contextAt_detach (o : ORMap String) (name : String) (d : Dot) :
    ((detach o).contextAt name).contains d =
      ((o.map.find? name).isNone && o.context.contains d) := by
  unfold ORMap.contextAt
  rw [find?_detach]
  cases o.map.find? name with
  | none => rfl
  | some cell => exact DotContext.contains_empty d

/-- A dot that `u` has and `l` has had: `l` has seen it and no longer has it. -/
def Outdated (u l : ShoppingList) (name : String) (d : Dot) : Prop :=
  (u.items.live name d).isSome = true ∧ l.items.context.contains d = true ∧
    l.items.live name d = none

/-- The two merges differ on a dot only if the decoded list has had it under an item that it still
has. -/
theorem live_join_eq_iff {u l : ShoppingList} (hu : u.items.Shared) (hl : l.items.Shared)
    (name : String) (d : Dot) :
    (u.items.join (detach l.items)).live name d = (u.items.join l.items).live name d ↔
      (Outdated u l name d → l.items.map.find? name = none) := by
  rw [ORMap.Shared.live_join_contextAt hu, ORMap.Shared.live_join hu hl, live_detach,
    contextAt_detach]
  unfold Outdated
  cases u.items.live name d <;> cases l.items.live name d <;>
    cases l.items.context.contains d <;> cases l.items.map.find? name <;>
    simp [DotState.mergeLive]

theorem join_detach_eq_iff {u l : ShoppingList} (hu : u.items.Shared) (hl : l.items.Shared) :
    u.items.join (detach l.items) = u.items.join l.items ↔
      ∀ name d, Outdated u l name d → l.items.map.find? name = none := by
  constructor
  · intro h name d
    rw [← live_join_eq_iff hu hl, h]
  · intro h
    refine ORMap.Shared.ext (hu.join _) (hu.join _) (fun name => ?_) (fun name d => ?_) ?_
    · rw [ORMap.isSome_find?_join, ORMap.isSome_find?_join, find?_detach, Option.isSome_map]
    · exact (live_join_eq_iff hu hl name d).2 (h name d)
    · rw [ORMap.join_context, ORMap.join_context]
      rfl

theorem fromJson_toJson_of_header_eq {u l : ShoppingList} (hl : l.WF) (htitle : u.title = l.title)
    (hurl : u.url = l.url) :
    fromJson l.toJson u = some ⟨l.id, l.title, l.url, u.items.join (detach l.items)⟩ ∧
      (u.join l).2.items = u.items.join l.items := by
  constructor
  · rw [fromJson_toJson_eq, readItems_toJson hl]
  · rw [join_of_header_eq htitle hurl]

end ShoppingList

/-! ## Replicas -/

namespace Replicas

variable {ι : Type*} [DecidableEq ι] {ids titles urls : ι → String} {s : Replicas ι}
  {t u : Snapshot ShoppingList}

/-- All lists are well formed, those the replicas have now among them. -/
def WF (s : Replicas ι) : Prop := (∀ i, s.now i ∈ s.past) ∧ ∀ t ∈ s.past, t.value.WF

theorem WF.put (h : WF s) (i : ι) (ht : t.value.WF) (clock : ℕ) : WF (s.put i t clock) :=
  ⟨now_mem_put h.1 i t clock, forall_past_put h.2 ht⟩

theorem StepOrReload.wf {s s' : Replicas ι} (h : WF s) (hst : StepOrReload s s') : WF s' := by
  cases hst with
  | step hst =>
    cases hst with
    | perform i op => exact h.put i ((h.2 _ (h.1 i)).perform op) _
    | join i t ht => exact h.put i ((h.2 _ (h.1 i)).join (h.2 t ht)) _
  | reload i id title url l hl =>
    rw [(h.2 _ (h.1 i)).fromJson_toJson] at hl
    cases hl
    exact h.put i (h.2 _ (h.1 i)) _

/-- Whatever the ids of the replicas are, their lists are well formed. -/
theorem Run.wf (h : Run StepOrReload (start ids titles urls) s) : WF s := by
  have hstart : WF (start ids titles urls) := by
    refine ⟨fun i => ⟨i, rfl⟩, ?_⟩
    rintro t ⟨i, rfl⟩
    exact ShoppingList.WF.new _ _ _
  exact h.invariant WF hstart fun _ _ hs hst => hst.wf hs

/-- **Decoding merges as a join does** exactly if no dot that the decoded list has had and no longer
has is still there under an item that it still has. -/
theorem decode_merges_iff (h : Run StepOrReload (start ids titles urls) s) (hu : u ∈ s.past)
    (ht : t ∈ s.past) (htitle : u.value.title = t.value.title)
    (hurl : u.value.url = t.value.url) :
    (∃ o, ShoppingList.fromJson t.value.toJson u.value = some o ∧
      o.items = (u.value.join t.value).2.items) ↔
      ∀ name d, ShoppingList.Outdated u.value t.value name d →
        t.value.items.map.find? name = none := by
  obtain ⟨-, hwf⟩ := Run.wf h
  obtain ⟨hdecode, hjoin⟩ :=
    ShoppingList.fromJson_toJson_of_header_eq (hwf t ht) htitle hurl
  rw [← ShoppingList.join_detach_eq_iff (hwf u hu).items.shared (hwf t ht).items.shared, hjoin,
    hdecode]
  constructor
  · rintro ⟨o, ho, hitems⟩
    cases ho
    exact hitems
  · intro hitems
    exact ⟨_, rfl, hitems⟩

/-- A replica that made the apples reads the list of one that has bought some of them. -/
theorem decode_merges_iff_bought :
    ∃ o, ShoppingList.fromJson ((bought 1).now false).value.toJson ((bought 1).now true).value =
        some o ∧
      o.items = (((bought 1).now true).value.join ((bought 1).now false).value).2.items := by
  have hmaker : (bought 1).now true ∈ (bought 1).past := .inr (.inr (.inl rfl))
  have hbuyer : (bought 1).now false ∈ (bought 1).past := .inl rfl
  refine (decode_merges_iff (run_bought 1) hmaker hbuyer rfl rfl).2 ?_
  rintro name d ⟨hlive, -, hgone⟩
  have hmade : ((bought 1).now true).value.items =
      (∅ : ORMap String).modify "apple" fun c => c.rewrite "user1" (· + 5) := rfl
  rw [hmade, ORMap.WF.empty.live_modify rfl] at hlive
  split_ifs at hlive with hname hd
  · subst hname hd
    exact absurd hgone (by decide)
  · cases hlive
  · cases hlive
  · cases hlive

/-- The first replica buys two of its five apples after the second one has learnt of them. -/
def superseded : Replicas Bool :=
  let learnt := made.put false ⟨((made.now false).value.join (made.now true).value).2, {0}⟩ 1
  learnt.put true ⟨((learnt.now true).value.perform (.buyItem "apple" 2)).2, {1, 0}⟩ 2

theorem run_superseded : Run StepOrReload two superseded :=
  (run_made.tail (.step (Step.join made false (made.now true) (.inl rfl)))).tail
    (.step (Step.perform _ true (.buyItem "apple" 2)))

/-- The second replica decodes the list of the first one, and keeps the five apples beside the three
that are left of them. -/
theorem decode_keeps_superseded :
    let u := superseded.now false
    let t := superseded.now true
    Run StepOrReload two superseded ∧ u ∈ superseded.past ∧ t ∈ superseded.past ∧
      u.value.title = t.value.title ∧ u.value.url = t.value.url ∧
      (u.value.join t.value).2.getQuantity "apple" = 3 ∧
      (ShoppingList.fromJson t.value.toJson u.value).map (·.getQuantity "apple") = some 8 ∧
      ¬ ∃ o, ShoppingList.fromJson t.value.toJson u.value = some o ∧
        o.items = (u.value.join t.value).2.items := by
  intro u t
  have hjoin : (u.value.join t.value).2.getQuantity "apple" = 3 := by decide
  have hdecode : (ShoppingList.fromJson t.value.toJson u.value).map (·.getQuantity "apple") =
      some 8 := by decide
  refine ⟨run_superseded, .inr (.inl rfl), .inl rfl, rfl, rfl, hjoin, hdecode, ?_⟩
  rintro ⟨o, ho, hitems⟩
  have hsame : o.getQuantity "apple" = (u.value.join t.value).2.getQuantity "apple" := by
    unfold ShoppingList.getQuantity
    rw [hitems]
  rw [ho, Option.map_some, hsame, hjoin] at hdecode
  exact absurd hdecode (by decide)

end Replicas

end ShoppingApp
