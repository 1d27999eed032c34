import ShoppingApp.Client.Console

/-!
# Sessions at the console

A loop of the console that ends does so whatever the number of rounds allowed (`updateLoop_mono`),
and all that it does to a list are operations that succeed, with quantities that an `int` can hold
and that are positive (`updateLoop_entered`). What a user types is done: a script of commands, with
any white space between its words, comes to the list command by command (`updateLoop_typed`).
-/

namespace ShoppingApp

namespace Console

open ShoppingList (Op)

variable {cin cin' : Cin} {l l' : ShoppingList} {fuel : ℕ}

/-! ## Rounds -/

theorem readQuantity_mono {r : Int × Cin} : ∀ {fuel : ℕ} {quantity : Option Int} {cin : Cin},
    readQuantity fuel quantity cin = some r → ∀ {fuel'}, fuel ≤ fuel' →
      readQuantity fuel' quantity cin = some r := by
  intro fuel
  induction fuel with
  | zero => exact fun h => nomatch h
  | succ fuel ih =>
    intro quantity cin h fuel' hle
    obtain ⟨fuel', rfl⟩ := Nat.exists_eq_add_of_lt hle
    unfold readQuantity at h ⊢
    dsimp only at h ⊢
    cases hor : cin.readInt.1.or quantity with
    | none =>
      rw [hor] at h
      cases h
    | some q =>
      rw [hor] at h
      dsimp only at h ⊢
      split_ifs at h ⊢ with hq
      · exact ih h (by omega)
      · exact h

theorem addProductsToList_mono {r : Cin × ShoppingList} (h : addProductsToList fuel cin l = some r)
    {fuel' : ℕ} (hle : fuel ≤ fuel') : addProductsToList fuel' cin l = some r := by
  unfold addProductsToList at h ⊢
  dsimp only at h ⊢
  split_ifs at h ⊢
  · exact h
  · obtain ⟨q, hq, hr⟩ := Option.bind_eq_some_iff.1 h
    exact Option.bind_eq_some_iff.2 ⟨q, readQuantity_mono hq hle, hr⟩

theorem buyProductsFromList_mono {r : Cin × ShoppingList} :
    ∀ {fuel : ℕ} {product_name : String} {cin : Cin},
      buyProductsFromList fuel product_name cin l = some r → ∀ {fuel'}, fuel ≤ fuel' →
        buyProductsFromList fuel' product_name cin l = some r := by
  intro fuel
  induction fuel with
  | zero => exact fun h => nomatch h
  | succ fuel ih =>
    intro product_name cin h fuel' hle
    obtain ⟨fuel', rfl⟩ := Nat.exists_eq_add_of_lt hle
    unfold buyProductsFromList at h ⊢
    dsimp only at h ⊢
    split_ifs at h ⊢
    · exact h
    · exact ih h (by omega)
    · obtain ⟨q, hq, hr⟩ := Option.bind_eq_some_iff.1 h
      exact Option.bind_eq_some_iff.2 ⟨q, readQuantity_mono hq (by omega), hr⟩

/-- A session that ends within some rounds is the same with more rounds. -/
theorem updateLoop_mono {r : Cin × ShoppingList} :
    ∀ {fuel : ℕ} {update_choice : Int} {cin : Cin} {l : ShoppingList},
      updateLoop fuel update_choice cin l = some r → ∀ {fuel'}, fuel ≤ fuel' →
        updateLoop fuel' update_choice cin l = some r := by
  intro fuel
  induction fuel with
  | zero => exact fun h => nomatch h
  | succ fuel ih =>
    intro update_choice cin l h fuel' hle
    obtain ⟨fuel', rfl⟩ := Nat.exists_eq_add_of_lt hle
    unfold updateLoop at h ⊢
    dsimp only at h ⊢
    split_ifs at h ⊢
    · exact h
    · obtain ⟨r', hr', hrest⟩ := Option.bind_eq_some_iff.1 h
      exact Option.bind_eq_some_iff.2
        ⟨r', addProductsToList_mono hr' (by omega), ih hrest (by omega)⟩
    · obtain ⟨r', hr', hrest⟩ := Option.bind_eq_some_iff.1 h
      exact Option.bind_eq_some_iff.2
        ⟨r', buyProductsFromList_mono hr' (by omega), ih hrest (by omega)⟩
    · exact ih h (by omega)

/-! ## What a session does to a list -/

/-- An operation that the console makes: it succeeds, on a product that is not called q, with a
quantity of at least 1 that fits an `int`. -/
inductive Entered (l : ShoppingList) : Op → Prop
  | createItem (product_name : String) (quantity : Int) (hname : product_name ≠ "q")
      (hnew : l.contains product_name = false) (hpos : 0 < quantity)
      (hmax : quantity ≤ Cin.INT_MAX) : Entered l (.createItem product_name quantity)
  | increaseItem (product_name : String) (quantity : Int) (hname : product_name ≠ "q")
      (hold : l.contains product_name = true) (hpos : 0 < quantity)
      (hmax : quantity ≤ Cin.INT_MAX) : Entered l (.increaseItem product_name quantity)
  | buyItem (product_name : String) (quantity : Int) (hname : product_name ≠ "q")
      (hold : l.contains product_name = true) (hpos : 0 < quantity)
      (hmax : quantity ≤ Cin.INT_MAX) : Entered l (.buyItem product_name quantity)

/-- Operations that the console makes one after another. -/
def AllEntered : ShoppingList → List Op → Prop
  | _, [] => True
  | l, op :: ops => Entered l op ∧ AllEntered (l.perform op).2 ops

theorem readQuantity_entered {q : Int} : ∀ {fuel : ℕ} {quantity : Option Int} {cin : Cin},
    (∀ n, quantity = some n → n ≤ 0) → readQuantity fuel quantity cin = some (q, cin') →
      0 < q ∧ q ≤ Cin.INT_MAX := by
  intro fuel
  induction fuel with
  | zero => exact fun _ h => nomatch h
  | succ fuel ih =>
    intro quantity cin hold h
    unfold readQuantity at h
    dsimp only at h
    cases hor : cin.readInt.1.or quantity with
    | none =>
      rw [hor] at h
      cases h
    | some n =>
      rw [hor] at h
      dsimp only at h
      split_ifs at h with hn
      · refine ih (fun m hm => ?_) h
        cases hm
        exact hn
      · cases h
        refine ⟨not_le.1 hn, ?_⟩
        rcases Option.or_eq_some_iff.1 hor with hread | ⟨-, hread⟩
        · exact Cin.readInt_max hread
        · exact absurd (hold q hread) hn

/-- What the console makes of a list. -/
def Worked (l l' : ShoppingList) : Prop :=
  ∃ ops, AllEntered l ops ∧ l' = ops.foldl (fun l op => (l.perform op).2) l

theorem Worked.refl (l : ShoppingList) : Worked l l := ⟨[], trivial, rfl⟩

theorem Worked.single {op : Op} (h : Entered l op) : Worked l (l.perform op).2 :=
  ⟨[op], ⟨h, trivial⟩, rfl⟩

theorem AllEntered.append : ∀ {ops : List Op} {l : ShoppingList} {more : List Op},
    AllEntered l ops → AllEntered (ops.foldl (fun l op => (l.perform op).2) l) more →
      AllEntered l (ops ++ more) := by
  intro ops
  induction ops with
  | nil => exact fun _ h => h
  | cons op ops ih => exact fun h hmore => ⟨h.1, ih h.2 hmore⟩

theorem Worked.trans {l'' : ShoppingList} (h : Worked l l') (h' : Worked l' l'') :
    Worked l l'' := by
  obtain ⟨ops, hops, rfl⟩ := h
  obtain ⟨more, hmore, rfl⟩ := h'
  exact ⟨ops ++ more, hops.append hmore, (List.foldl_append ..).symm⟩

/-- Adding a product, or more of it. -/
def add (l : ShoppingList) (product_name : String) (quantity : Int) : Op :=
  if l.contains product_name then .increaseItem product_name quantity
  else .createItem product_name quantity

theorem add_eq (l : ShoppingList) (product_name : String) (quantity : Int) :
    (if (l.createItem product_name quantity).1 then (l.createItem product_name quantity).2
      else (l.increaseItem product_name quantity).2) =
      (l.perform (add l product_name quantity)).2 := by
  unfold add
  cases hcontains : l.contains product_name <;>
    simp [ShoppingList.createItem, ShoppingList.perform, hcontains]

theorem Entered.add {product_name : String} {quantity : Int} (hname : product_name ≠ "q")
    (hpos : 0 < quantity) (hmax : quantity ≤ Cin.INT_MAX) :
    Entered l (Console.add l product_name quantity) := by
  unfold Console.add
  split_ifs with hcontains
  · exact .increaseItem _ _ hname hcontains hpos hmax
  · exact .createItem _ _ hname (by simpa using hcontains) hpos hmax

theorem addProductsToList_worked (h : addProductsToList fuel cin l = some (cin', l')) :
    Worked l l' := by
  unfold addProductsToList at h
  dsimp only at h
  split_ifs at h with hq
  · cases h
    exact .refl l
  · obtain ⟨⟨quantity, cin₁⟩, hquantity, h⟩ := Option.bind_eq_some_iff.1 h
    obtain ⟨hpos, hmax⟩ := readQuantity_entered (fun _ hn => by cases hn) hquantity
    dsimp only at h
    rw [add_eq] at h
    cases h
    exact .single (.add hq hpos hmax)

theorem buyProductsFromList_worked : ∀ {fuel : ℕ} {product_name : String} {cin : Cin},
    buyProductsFromList fuel product_name cin l = some (cin', l') → Worked l l' := by
  intro fuel
  induction fuel with
  | zero => exact fun h => nomatch h
  | succ fuel ih =>
    intro product_name cin h
    unfold buyProductsFromList at h
    dsimp only at h
    split_ifs at h with hq hcontains
    · cases h
      exact .refl l
    · exact ih h
    · obtain ⟨⟨quantity, cin₁⟩, hquantity, h⟩ := Option.bind_eq_some_iff.1 h
      obtain ⟨hpos, hmax⟩ := readQuantity_entered (fun _ hn => by cases hn) hquantity
      cases h
      exact .single (.buyItem _ _ hq (by simpa using hcontains) hpos hmax)

/-- **What a session does**: operations that succeed, one after another. -/
theorem updateLoop_worked : ∀ {fuel : ℕ} {update_choice : Int} {cin : Cin} {l : ShoppingList},
    updateLoop fuel update_choice cin l = some (cin', l') → Worked l l' := by
  intro fuel
  induction fuel with
  | zero => exact fun h => nomatch h
  | succ fuel ih =>
    intro update_choice cin l h
    unfold updateLoop at h
    dsimp only at h
    split_ifs at h with hexit hadd hbuy
    · cases h
      exact .refl _
    · obtain ⟨⟨cin₁, l₁⟩, hadded, h⟩ := Option.bind_eq_some_iff.1 h
      exact (addProductsToList_worked hadded).trans (ih h)
    · obtain ⟨⟨cin₁, l₁⟩, hbought, h⟩ := Option.bind_eq_some_iff.1 h
      exact (buyProductsFromList_worked hbought).trans (ih h)
    · exact ih h

/-! ## The main thread -/

/-- The main thread has made no list and has none to save. -/
def Position.Quiet : Position → Prop
  | .edited _ _ | .saving _ _ _ | .create_list _ | .get_list _ => False
  | .update_list _ l => l = ShoppingList.blank
  | _ => True

/-- A list that has been worked on and not been saved yet. -/
def Position.session : Position → Option ShoppingList
  | .edited _ l | .saving _ l _ => some l
  | _ => none

/-- What the main thread can do before it looks at its database again. -/
inductive Moves (list_id : String) (m : Main) (db : Database) : Main → Database → Prop
  | create (cin : Cin) (list_name : String) (hposition : m.position = .menu) :
      Moves list_id m db
        ⟨cin, .create_list (ShoppingList.new list_id list_name ("msla-" ++ list_id))⟩
        (db.set ("msla-" ++ list_id)
          (ShoppingList.new list_id list_name ("msla-" ++ list_id)).toJson)
  | get (cin : Cin) (get_list_url : String) (hposition : m.position = .menu) :
      Moves list_id m db ⟨cin, .get_list get_list_url⟩ db
  | edit (cin : Cin) (update_list_list_url : String) (j : Json) (l l' : ShoppingList)
      (hposition : m.position = .found update_list_list_url)
      (hj : db.find? update_list_list_url = some j)
      (hl : ShoppingList.fromJson j ShoppingList.blank = some l) (hworked : Worked l l') :
      Moves list_id m db ⟨cin, .edited update_list_list_url l'⟩ db
  | read (update_list_list_url : String) (l : ShoppingList)
      (hposition : m.position = .edited update_list_list_url l) :
      Moves list_id m db ⟨m.cin, .saving update_list_list_url l (db.get l.url)⟩ db
  | save (update_list_list_url : String) (l : ShoppingList) (j value : Json)
      (hposition : m.position = .saving update_list_list_url l j)
      (hvalue : LocalStore.savedValue l j = some value) :
      Moves list_id m db ⟨m.cin, .update_list update_list_list_url l⟩ (db.set l.url value)
  | delete (update_list_list_url : String)
      (hposition : m.position = .found_to_delete update_list_list_url) :
      Moves list_id m db ⟨m.cin, .delete_list⟩ (db.del update_list_list_url)
  | quiet (m' : Main) (hposition : m.position.session = none)
      (hquiet : m'.position.Quiet) : Moves list_id m db m' db

variable {list_id : String} {m m' : Main} {db db' : Database}

theorem menu_moves (hposition : m.position = .menu)
    (h : menu fuel list_id m.cin db = some (m', db')) : Moves list_id m db m' db' := by
  have hmenu : m.position.session = none := by rw [hposition]; rfl
  unfold menu at h
  obtain ⟨⟨choice, cin⟩, -, h⟩ := Option.bind_eq_some_iff.1 h
  dsimp only at h
  by_cases hcreate : choice = 1
  · rw [if_pos hcreate] at h
    cases h
    exact .create _ _ hposition
  rw [if_neg hcreate] at h
  by_cases hget : choice = 2
  · rw [if_pos hget] at h
    cases h
    exact .get _ _ hposition
  rw [if_neg hget] at h
  split_ifs at h <;> cases h <;> exact .quiet _ hmenu (by trivial)

theorem edit_moves {update_list_list_url : String}
    (hposition : m.position = .found update_list_list_url)
    (h : edit fuel m.cin update_list_list_url (db.get update_list_list_url) = some m') :
    Moves list_id m db m' db := by
  unfold edit at h
  split_ifs at h with hempty
  · cases h
    exact .quiet _ (by rw [hposition]; rfl) rfl
  · obtain ⟨l, hl, h⟩ := Option.bind_eq_some_iff.1 h
    obtain ⟨⟨cin, l'⟩, hloop, h⟩ := Option.bind_eq_some_iff.1 h
    cases h
    cases hj : db.find? update_list_list_url with
    | none =>
      rw [Database.get, hj] at hempty
      exact absurd rfl hempty
    | some j =>
      rw [Database.get, hj] at hl
      exact .edit cin _ j l l' hposition hj hl (updateLoop_worked hloop)

/-- **One move of the main thread.** -/
theorem step_moves (h : step fuel list_id m db = some (m', db')) : Moves list_id m db m' db' := by
  unfold step at h
  cases hposition : m.position with
  | menu =>
    rw [hposition] at h
    exact menu_moves hposition h
  | found url =>
    rw [hposition] at h
    obtain ⟨m₁, hedit, h⟩ := Option.map_eq_some_iff.1 h
    cases h
    exact edit_moves hposition hedit
  | edited url l =>
    rw [hposition] at h
    cases h
    exact .read url l hposition
  | saving url l j =>
    rw [hposition] at h
    obtain ⟨value, hvalue, h⟩ := Option.map_eq_some_iff.1 h
    cases h
    exact .save url l j value hposition hvalue
  | found_to_delete url =>
    rw [hposition] at h
    cases h
    exact .delete url hposition
  | stopped =>
    rw [hposition] at h
    cases h
  | picked =>
    rw [hposition] at h
    cases h
    refine .quiet _ (by rw [hposition]; rfl) ?_
    unfold lookUp
    dsimp only
    split_ifs <;> trivial
  | picked_to_delete =>
    rw [hposition] at h
    cases h
    refine .quiet _ (by rw [hposition]; rfl) ?_
    unfold lookUp
    dsimp only
    split_ifs <;> trivial
  | create_list | get_list | update_list | delete_list =>
    rw [hposition] at h
    cases h
    exact .quiet _ (by rw [hposition]; rfl) trivial

/-! ## What a user types -/

/-- A quantity, after others that the console does not take. -/
structure Amount where
  refused : List Int
  quantity : Int

namespace Amount

def words (a : Amount) : List (List Char) := (a.refused ++ [a.quantity]).map Cin.numeral

structure Fits (a : Amount) : Prop where
  refused : ∀ n ∈ a.refused, Cin.INT_MIN ≤ n ∧ n ≤ 0
  pos : 0 < a.quantity
  max : a.quantity ≤ Cin.INT_MAX

end Amount

/-- What a user does at the menu of a session: a product is added; one is bought, after names that
are not on the list; neither; or a choice is made that the menu does not have. -/
inductive Command
  | add (product_name : String) (amount : Amount)
  | buy (missed : List String) (product_name : String) (amount : Amount)
  | leaveAdd
  | leaveBuy (missed : List String)
  | other (choice : Int)

namespace Command

def words : Command → List (List Char)
  | .add product_name amount => Cin.numeral 1 :: product_name.toList :: amount.words
  | .buy missed product_name amount =>
    Cin.numeral 2 :: (missed.map String.toList ++ product_name.toList :: amount.words)
  | .leaveAdd => [Cin.numeral 1, "q".toList]
  | .leaveBuy missed => Cin.numeral 2 :: (missed.map String.toList ++ ["q".toList])
  | .other choice => [Cin.numeral choice]

/-- The list after the command. -/
def perform (l : ShoppingList) : Command → ShoppingList
  | .add product_name amount => (l.perform (Console.add l product_name amount.quantity)).2
  | .buy _ product_name amount => (l.perform (.buyItem product_name amount.quantity)).2
  | _ => l

/-- The command is one for the list. -/
def Fits (l : ShoppingList) : Command → Prop
  | .add product_name amount => product_name ≠ "q" ∧ amount.Fits
  | .buy missed product_name amount =>
    (∀ name ∈ missed, name ≠ "q" ∧ l.contains name = false) ∧
      product_name ≠ "q" ∧ l.contains product_name = true ∧ amount.Fits
  | .leaveAdd => True
  | .leaveBuy missed => ∀ name ∈ missed, name ≠ "q" ∧ l.contains name = false
  | .other choice => Cin.INT_MIN ≤ choice ∧ choice ≤ Cin.INT_MAX ∧ choice ∉ [0, 1, 2]

end Command

/-- Each command of a script is one for the list to which it comes. -/
def Fits : ShoppingList → List Command → Prop
  | _, [] => True
  | l, command :: script => command.Fits l ∧ Fits (command.perform l) script

/-- A product for which the console asks a quantity: one to add or one on the list to buy, and the
numbers that it has not taken. -/
structure Prompt where
  choice : Int
  product_name : String
  refused : List Int

def Prompt.words (p : Prompt) : List (List Char) :=
  Cin.numeral p.choice :: p.product_name.toList :: p.refused.map Cin.numeral

structure Prompt.Fits (l : ShoppingList) (p : Prompt) : Prop where
  choice : p.choice = 1 ∨ p.choice = 2 ∧ l.contains p.product_name = true
  name : p.product_name ≠ "q"
  refused : ∀ n ∈ p.refused, Cin.INT_MIN ≤ n ∧ n ≤ 0

variable {rest text : List Char} {words : List (List Char)}

theorem readQuantity_typed {a : Amount} (ha : a.Fits)
    (h : Cin.Typed rest (a.words ++ words) text) (hfuel : a.refused.length < fuel)
    (quantity : Option Int) :
    ∃ text', readQuantity fuel quantity ⟨text, false⟩ = some (a.quantity, ⟨text', false⟩) ∧
      Cin.Typed rest words text' := by
  obtain ⟨refused, q⟩ := a
  obtain ⟨hrefused, hpos, hmax⟩ := ha
  unfold Amount.words at h
  dsimp only at hrefused hpos hmax h hfuel ⊢
  induction refused generalizing fuel text quantity with
  | nil =>
    obtain ⟨fuel, rfl⟩ := Nat.exists_eq_add_of_lt hfuel
    have hmin : Cin.INT_MIN ≤ q := le_trans (by decide) hpos.le
    obtain ⟨text', hread, htyped⟩ := Cin.Typed.readInt h hmin hmax
    refine ⟨text', ?_, htyped⟩
    unfold readQuantity
    dsimp only
    rw [hread, Option.some_or]
    exact if_neg (not_le.2 hpos)
  | cons n refused ih =>
    obtain ⟨fuel, rfl⟩ := Nat.exists_eq_add_of_lt hfuel
    obtain ⟨hmin, hle⟩ := hrefused n List.mem_cons_self
    obtain ⟨text₁, hread, htyped⟩ := Cin.Typed.readInt h hmin (hle.trans (by decide))
    have hrefused' : ∀ m ∈ refused, Cin.INT_MIN ≤ m ∧ m ≤ 0 := fun m hm =>
      hrefused m (List.mem_cons_of_mem _ hm)
    obtain ⟨text', hrest, htyped'⟩ := ih (some n) htyped
      (by simp; omega : refused.length < (n :: refused).length + fuel) hrefused'
    refine ⟨text', ?_, htyped'⟩
    unfold readQuantity
    dsimp only
    rw [hread, Option.some_or]
    dsimp only
    rw [if_pos hle]
    exact hrest

theorem ofList_toList (name : String) : String.ofList name.toList = name := by simp

/-- Names that are not on the list are passed over. -/
theorem buyProductsFromList_missed {missed : List String} :
    ∀ {fuel : ℕ} {product_name : String} {text : List Char},
    (∀ name ∈ missed, name ≠ "q" ∧ l.contains name = false) → missed.length ≤ fuel →
    Cin.Typed rest (missed.map String.toList ++ words) text →
    ∃ product_name' text', Cin.Typed rest words text' ∧
      buyProductsFromList fuel product_name ⟨text, false⟩ l =
        buyProductsFromList (fuel - missed.length) product_name' ⟨text', false⟩ l := by
  induction missed with
  | nil => exact fun _ _ h => ⟨_, _, h, rfl⟩
  | cons name missed ih =>
    intro fuel product_name text hmissed hfuel h
    obtain ⟨fuel, rfl⟩ := Nat.exists_eq_add_of_le hfuel
    obtain ⟨hname, hnot⟩ := hmissed name List.mem_cons_self
    obtain ⟨text₁, hread, htyped⟩ := Cin.Typed.readWord h
    rw [ofList_toList] at hread
    have hmissed' : ∀ n ∈ missed, n ≠ "q" ∧ l.contains n = false := fun n hn =>
      hmissed n (List.mem_cons_of_mem _ hn)
    have hle : missed.length ≤ missed.length + fuel := Nat.le_add_right _ _
    obtain ⟨product_name', text', htyped', heq⟩ := @ih _ name _ hmissed' hle htyped
    refine ⟨product_name', text', htyped', ?_⟩
    have hround : (name :: missed).length + fuel = missed.length + fuel + 1 := by
      rw [List.length_cons]
      omega
    have hrest : (name :: missed).length + fuel - (name :: missed).length =
        missed.length + fuel - missed.length := by omega
    rw [hrest, ← heq, hround, buyProductsFromList]
    dsimp only
    rw [hread, Option.getD_some, if_neg hname, hnot]
    rfl

theorem addProductsToList_typed {product_name : String} {a : Amount} (hname : product_name ≠ "q")
    (ha : a.Fits) (h : Cin.Typed rest (product_name.toList :: (a.words ++ words)) text)
    (hfuel : a.refused.length < fuel) :
    ∃ text', addProductsToList fuel ⟨text, false⟩ l =
        some (⟨text', false⟩, (l.perform (add l product_name a.quantity)).2) ∧
      Cin.Typed rest words text' := by
  obtain ⟨text₁, hread, htyped⟩ := Cin.Typed.readWord h
  obtain ⟨text', hquantity, htyped'⟩ := readQuantity_typed ha htyped hfuel none
  refine ⟨text', ?_, htyped'⟩
  unfold addProductsToList
  dsimp only
  rw [hread, ofList_toList, Option.getD_some, if_neg hname, hquantity]
  dsimp only [bind, Option.bind, pure]
  rw [add_eq]

theorem buyProductsFromList_typed {missed : List String} {product_name : String} {a : Amount}
    (hmissed : ∀ name ∈ missed, name ≠ "q" ∧ l.contains name = false) (hname : product_name ≠ "q")
    (hcontains : l.contains product_name = true) (ha : a.Fits)
    (h : Cin.Typed rest
      (missed.map String.toList ++ (product_name.toList :: (a.words ++ words))) text)
    (hfuel : missed.length + a.refused.length < fuel) (before : String) :
    ∃ text', buyProductsFromList fuel before ⟨text, false⟩ l =
        some (⟨text', false⟩, (l.perform (.buyItem product_name a.quantity)).2) ∧
      Cin.Typed rest words text' := by
  have hle : missed.length ≤ fuel := by omega
  obtain ⟨name, text₁, htyped, heq⟩ :=
    @buyProductsFromList_missed l rest _ missed fuel before text hmissed hle h
  obtain ⟨text₂, hread, htyped⟩ := Cin.Typed.readWord htyped
  obtain ⟨rounds, hrounds⟩ : ∃ rounds, fuel - missed.length = rounds + 1 :=
    ⟨fuel - missed.length - 1, by omega⟩
  obtain ⟨text', hquantity, htyped'⟩ := readQuantity_typed ha htyped
    (by omega : a.refused.length < rounds + 1) none
  refine ⟨text', ?_, htyped'⟩
  rw [heq, hrounds, buyProductsFromList]
  dsimp only
  rw [hread, ofList_toList, Option.getD_some, if_neg hname, hcontains, Bool.not_true,
    if_neg Bool.false_ne_true, hquantity]
  rfl

theorem buyProductsFromList_left {missed : List String}
    (hmissed : ∀ name ∈ missed, name ≠ "q" ∧ l.contains name = false)
    (h : Cin.Typed rest (missed.map String.toList ++ ("q".toList :: words)) text)
    (hfuel : missed.length < fuel) (before : String) :
    ∃ text', buyProductsFromList fuel before ⟨text, false⟩ l = some (⟨text', false⟩, l) ∧
      Cin.Typed rest words text' := by
  have hle : missed.length ≤ fuel := by omega
  obtain ⟨name, text₁, htyped, heq⟩ :=
    @buyProductsFromList_missed l rest _ missed fuel before text hmissed hle h
  obtain ⟨text', hread, htyped'⟩ := Cin.Typed.readWord htyped
  obtain ⟨rounds, hrounds⟩ : ∃ rounds, fuel - missed.length = rounds + 1 :=
    ⟨fuel - missed.length - 1, by omega⟩
  refine ⟨text', ?_, htyped'⟩
  rw [heq, hrounds, buyProductsFromList]
  dsimp only
  rw [hread]
  rfl

/-- One command is one round of the session. -/
theorem updateLoop_command {command : Command} {update_choice : Int} (hfits : command.Fits l)
    (h : Cin.Typed rest (command.words ++ words) text) (hchoice : update_choice ≠ 0)
    (hfuel : command.words.length ≤ fuel) :
    ∃ choice text', choice ≠ 0 ∧ Cin.Typed rest words text' ∧
      updateLoop (fuel + 1) update_choice ⟨text, false⟩ l =
        updateLoop fuel choice ⟨text', false⟩ (command.perform l) := by
  cases command with
  | add product_name amount =>
    obtain ⟨hname, hamount⟩ := hfits
    obtain ⟨text₁, hread, htyped⟩ := Cin.Typed.readInt h (by decide) (by decide)
    have hrounds : amount.refused.length < fuel := by
      simp [Command.words, Amount.words] at hfuel
      omega
    obtain ⟨text', hadd, htyped'⟩ := addProductsToList_typed hname hamount htyped hrounds
    refine ⟨1, text', by decide, htyped', ?_⟩
    rw [updateLoop, if_neg hchoice]
    dsimp only
    rw [hread, Option.getD_some, if_pos rfl, hadd]
    rfl
  | buy missed product_name amount =>
    obtain ⟨hmissed, hname, hcontains, hamount⟩ := hfits
    rw [Command.words, List.cons_append, List.append_assoc, List.cons_append] at h
    obtain ⟨text₁, hread, htyped⟩ := Cin.Typed.readInt h (by decide) (by decide)
    have hrounds : missed.length + amount.refused.length < fuel := by
      simp [Command.words, Amount.words] at hfuel
      omega
    obtain ⟨text', hbuy, htyped'⟩ :=
      buyProductsFromList_typed hmissed hname hcontains hamount htyped hrounds ""
    refine ⟨2, text', by decide, htyped', ?_⟩
    rw [updateLoop, if_neg hchoice]
    dsimp only
    rw [hread, Option.getD_some, if_neg (by decide), if_pos rfl, hbuy]
    rfl
  | leaveAdd =>
    obtain ⟨text₁, hread, htyped⟩ := Cin.Typed.readInt h (by decide) (by decide)
    obtain ⟨text', hq, htyped'⟩ := Cin.Typed.readWord htyped
    have hadd : addProductsToList fuel ⟨text₁, false⟩ l = some (⟨text', false⟩, l) := by
      unfold addProductsToList
      dsimp only
      rw [hq]
      rfl
    refine ⟨1, text', by decide, htyped', ?_⟩
    rw [updateLoop, if_neg hchoice]
    dsimp only
    rw [hread, Option.getD_some, if_pos rfl, hadd]
    rfl
  | leaveBuy missed =>
    rw [Command.words, List.cons_append, List.append_assoc, List.singleton_append] at h
    obtain ⟨text₁, hread, htyped⟩ := Cin.Typed.readInt h (by decide) (by decide)
    have hrounds : missed.length < fuel := by
      simp [Command.words] at hfuel
      omega
    obtain ⟨text', hbuy, htyped'⟩ := buyProductsFromList_left hfits htyped hrounds ""
    refine ⟨2, text', by decide, htyped', ?_⟩
    rw [updateLoop, if_neg hchoice]
    dsimp only
    rw [hread, Option.getD_some, if_neg (by decide), if_pos rfl, hbuy]
    rfl
  | other choice =>
    obtain ⟨hmin, hmax, hnot⟩ := hfits
    simp only [List.mem_cons, List.not_mem_nil, or_false, not_or] at hnot
    obtain ⟨text', hread, htyped'⟩ := Cin.Typed.readInt h hmin hmax
    refine ⟨choice, text', hnot.1, htyped', ?_⟩
    rw [updateLoop, if_neg hchoice]
    dsimp only
    rw [hread, Option.getD_some, if_neg hnot.2.1, if_neg hnot.2.2]
    rfl

/-- The commands of a script, and the session goes on with what is typed behind it. -/
theorem updateLoop_script {script : List Command} :
    ∀ {l : ShoppingList} {text : List Char} {update_choice : Int}, Fits l script →
    Cin.Typed rest (script.flatMap Command.words ++ words) text → update_choice ≠ 0 →
    (script.flatMap Command.words).length ≤ fuel →
    ∃ choice text', choice ≠ 0 ∧ Cin.Typed rest words text' ∧
      updateLoop (fuel + script.length) update_choice ⟨text, false⟩ l =
        updateLoop fuel choice ⟨text', false⟩ (script.foldl Command.perform l) := by
  induction script with
  | nil => exact fun _ h hchoice _ => ⟨_, _, hchoice, h, rfl⟩
  | cons command script ih =>
    intro l text update_choice hfits h hchoice hfuel
    rw [List.flatMap_cons, List.append_assoc] at h
    rw [List.flatMap_cons, List.length_append] at hfuel
    obtain ⟨choice, text₁, hchoice₁, htyped, heq⟩ := updateLoop_command hfits.1 h hchoice
      (by omega : command.words.length ≤ fuel + script.length)
    obtain ⟨choice', text', hchoice', htyped', hrest⟩ := ih hfits.2 htyped hchoice₁ (by omega)
    refine ⟨choice', text', hchoice', htyped', ?_⟩
    rw [List.length_cons, ← Nat.add_assoc, heq, hrest, List.foldl_cons]

/-- **What a user types is done.** A script of commands, each one for the list to which it comes,
with its words after any white space and the choice 0 at the end: the session performs the commands
in order and leaves what is typed behind them. -/
theorem updateLoop_typed {script : List Command} (hfits : Fits l script)
    (h : Cin.Typed rest (script.flatMap Command.words ++ [Cin.numeral 0]) text)
    (hfuel : (script.flatMap Command.words).length + script.length + 2 ≤ fuel) :
    updateLoop fuel (-1) ⟨text, false⟩ l =
      some (⟨rest, false⟩, script.foldl Command.perform l) := by
  have hrounds : (script.flatMap Command.words).length ≤
      (script.flatMap Command.words).length + 2 := Nat.le_add_right _ _
  obtain ⟨choice, text₁, hchoice, htyped, heq⟩ :=
    updateLoop_script hfits h (by decide : (-1 : Int) ≠ 0) hrounds
  obtain ⟨text', hread, htyped'⟩ := Cin.Typed.readInt htyped (by decide) (by decide)
  cases htyped'
  refine updateLoop_mono ?_ (by omega :
    (script.flatMap Command.words).length + 2 + script.length ≤ fuel)
  rw [heq, updateLoop, if_neg hchoice]
  dsimp only
  rw [hread, Option.getD_some, if_neg (by decide), if_neg (by decide), updateLoop]
  exact if_pos rfl

/-- Apples are added twice and some are bought, after a name and a quantity that are not taken. -/
def appleScript : List Command :=
  [.add "apple" ⟨[0], 3⟩, .other 7, .add "apple" ⟨[], 2⟩, .buy ["pear"] "apple" ⟨[-1], 4⟩]

theorem appleScript_fits : Fits (ShoppingList.new "user1" "party" "msla-user1") appleScript := by
  have hthree : Amount.Fits ⟨[0], 3⟩ := ⟨by decide, by decide, by decide⟩
  have htwo : Amount.Fits ⟨[], 2⟩ := ⟨by decide, by decide, by decide⟩
  have hfour : Amount.Fits ⟨[-1], 4⟩ := ⟨by decide, by decide, by decide⟩
  exact ⟨⟨by decide, hthree⟩, ⟨by decide, by decide, by decide⟩, ⟨by decide, htwo⟩,
    ⟨by decide, by decide, by decide, hfour⟩, trivial⟩

theorem updateLoop_typed_apple : ∃ text,
    updateLoop 19 (-1) ⟨text, false⟩ (ShoppingList.new "user1" "party" "msla-user1") =
      some (⟨['\n'], false⟩,
        appleScript.foldl Command.perform (ShoppingList.new "user1" "party" "msla-user1")) :=
  ⟨_, updateLoop_typed appleScript_fits (Cin.Typed.spaced (by decide) (by decide)) (by decide)⟩

/-- Something else than a number is typed. -/
def Mistyped (text : List Char) : Prop :=
  ∃ blanks c junk, text = blanks ++ c :: junk ∧ (∀ b ∈ blanks, Cin.isspace b = true) ∧
    Cin.isspace c = false ∧ c.isDigit = false ∧ c ≠ '-' ∧ c ≠ '+'

theorem Mistyped.readInt (h : Mistyped text) :
    ∃ text', (Cin.mk text false).readInt = (some 0, ⟨text', true⟩) := by
  obtain ⟨blanks, c, junk, rfl, hblanks, hspace, hdigit, hminus, hplus⟩ := h
  exact ⟨_, Cin.readInt_junk hblanks hspace hdigit hminus hplus⟩

/-- A quantity is asked for again and again when the stream has failed. -/
theorem readQuantity_failed (hfail : cin.fail = true) {n : Int} (hn : n ≤ 0) (fuel : ℕ) :
    readQuantity fuel (some n) cin = none := by
  induction fuel with
  | zero => rfl
  | succ fuel ih =>
    unfold readQuantity
    rw [Cin.readInt_fail hfail]
    dsimp only [Option.none_or]
    rw [if_pos hn]
    exact ih

theorem readQuantity_mistyped (hrest : Mistyped rest) {refused : List Int} :
    ∀ {fuel : ℕ} {quantity : Option Int} {text : List Char},
      (∀ n ∈ refused, Cin.INT_MIN ≤ n ∧ n ≤ 0) →
        Cin.Typed rest (refused.map Cin.numeral) text →
          readQuantity fuel quantity ⟨text, false⟩ = none := by
  induction refused with
  | nil =>
    intro fuel quantity text _ h
    cases h
    obtain ⟨text', hread⟩ := hrest.readInt
    cases fuel with
    | zero => rfl
    | succ fuel =>
      unfold readQuantity
      rw [hread]
      dsimp only [Option.some_or]
      exact readQuantity_failed rfl le_rfl fuel
  | cons n refused ih =>
    intro fuel quantity text hrefused h
    obtain ⟨hmin, hle⟩ := hrefused n List.mem_cons_self
    obtain ⟨text₁, hread, htyped⟩ := Cin.Typed.readInt h hmin (hle.trans (by decide))
    cases fuel with
    | zero => rfl
    | succ fuel =>
      unfold readQuantity
      rw [hread]
      dsimp only [Option.some_or]
      rw [if_pos hle]
      exact ih (fun m hm => hrefused m (List.mem_cons_of_mem _ hm)) htyped

/-- A session does not go on when another word than a number is typed for a quantity. -/
theorem updateLoop_prompt {p : Prompt} (hp : p.Fits l) (hrest : Mistyped rest)
    (h : Cin.Typed rest p.words text) {update_choice : Int} (hchoice : update_choice ≠ 0) :
    updateLoop fuel update_choice ⟨text, false⟩ l = none := by
  obtain ⟨choice, product_name, refused⟩ := p
  obtain ⟨hmenu, hname, hrefused⟩ := hp
  dsimp only at hmenu hname hrefused
  cases fuel with
  | zero => rfl
  | succ fuel =>
    have hrange : Cin.INT_MIN ≤ choice ∧ choice ≤ Cin.INT_MAX := by
      rcases hmenu with rfl | ⟨rfl, -⟩ <;> decide
    obtain ⟨text₁, hread, htyped⟩ := Cin.Typed.readInt h hrange.1 hrange.2
    obtain ⟨text₂, hword, htyped⟩ := Cin.Typed.readWord htyped
    have hnone : ∀ fuel, readQuantity fuel none ⟨text₂, false⟩ = none := fun _ =>
      readQuantity_mistyped hrest hrefused htyped
    rw [updateLoop, if_neg hchoice]
    dsimp only
    rw [hread, Option.getD_some]
    rcases hmenu with rfl | ⟨rfl, hcontains⟩
    · have hadd : addProductsToList fuel ⟨text₁, false⟩ l = none := by
        unfold addProductsToList
        dsimp only
        rw [hword, ofList_toList, Option.getD_some, if_neg hname, hnone]
        rfl
      rw [if_pos rfl, hadd]
      rfl
    · have hbuy : buyProductsFromList fuel "" ⟨text₁, false⟩ l = none := by
        cases fuel with
        | zero => rfl
        | succ fuel =>
          rw [buyProductsFromList]
          dsimp only
          rw [hword, ofList_toList, Option.getD_some, if_neg hname, hcontains, Bool.not_true,
            if_neg Bool.false_ne_true, hnone]
          rfl
      dsimp only
      rw [if_neg (by decide), if_pos rfl, hbuy]
      rfl

/-- **A word where a number should be.** Typed for a choice behind a script of commands, it ends the
session with the commands done; typed for a quantity, it keeps the session from ever ending. -/
theorem updateLoop_mistyped {script : List Command} (hfits : Fits l script)
    (hrest : Mistyped rest) :
    (Cin.Typed rest (script.flatMap Command.words) text → ∃ fuel rest',
      updateLoop fuel (-1) ⟨text, false⟩ l =
        some (⟨rest', true⟩, script.foldl Command.perform l)) ∧
    ∀ p : Prompt, p.Fits (script.foldl Command.perform l) →
      Cin.Typed rest (script.flatMap Command.words ++ p.words) text → ∀ fuel,
        updateLoop fuel (-1) ⟨text, false⟩ l = none := by
  have hminus : (-1 : Int) ≠ 0 := by decide
  constructor
  · intro h
    have hall : Cin.Typed rest (script.flatMap Command.words ++ []) text := by
      rw [List.append_nil]
      exact h
    obtain ⟨choice, text₁, hchoice, htyped, heq⟩ :=
      updateLoop_script hfits hall hminus (Nat.le_add_right _ 2)
    cases htyped
    obtain ⟨text', hread⟩ := hrest.readInt
    refine ⟨_, text', heq.trans ?_⟩
    rw [updateLoop, if_neg hchoice]
    dsimp only
    rw [hread, Option.getD_some, if_neg (by decide), if_neg (by decide), updateLoop]
    exact if_pos rfl
  · intro p hp h fuel
    by_contra hsome
    obtain ⟨r, hr⟩ := Option.ne_none_iff_exists'.1 hsome
    obtain ⟨choice, text₁, hchoice, htyped, heq⟩ := updateLoop_script hfits h hminus
      (Nat.le_add_right (script.flatMap Command.words).length fuel)
    rw [updateLoop_prompt hp hrest htyped hchoice] at heq
    have hmore := updateLoop_mono hr
      (by omega : fuel ≤ (script.flatMap Command.words).length + fuel + script.length)
    rw [heq] at hmore
    cases hmore

theorem updateLoop_mistyped_apple :
    (∃ text fuel rest', updateLoop fuel (-1) ⟨text, false⟩
        (ShoppingList.new "user1" "party" "msla-user1") =
      some (⟨rest', true⟩,
        appleScript.foldl Command.perform (ShoppingList.new "user1" "party" "msla-user1"))) ∧
    ∃ text, ∀ fuel, updateLoop fuel (-1) ⟨text, false⟩
      (ShoppingList.new "user1" "party" "msla-user1") = none := by
  have hblank : ∀ b ∈ [' '], Cin.isspace b = true := List.all_eq_true.1 (by decide)
  have hrest : Mistyped " many".toList :=
    ⟨[' '], 'm', "any".toList, rfl, hblank, by decide, by decide, by decide, by decide⟩
  have happle : Prompt.Fits (appleScript.foldl Command.perform
      (ShoppingList.new "user1" "party" "msla-user1")) ⟨1, "pear", []⟩ :=
    ⟨.inl rfl, by decide, by decide⟩
  constructor
  · have htyped := Cin.Typed.spaced (by decide : " many".toList.head?.all Cin.isspace = true)
      (by decide : (appleScript.flatMap Command.words).all Cin.isWord = true)
    exact ⟨_, (updateLoop_mistyped appleScript_fits hrest).1 htyped⟩
  · have htyped := Cin.Typed.spaced (by decide : " many".toList.head?.all Cin.isspace = true)
      (by decide : (appleScript.flatMap Command.words ++ Prompt.words ⟨1, "pear", []⟩).all
        Cin.isWord = true)
    exact ⟨_, (updateLoop_mistyped appleScript_fits hrest).2 _ happle htyped⟩

end Console

end ShoppingApp
