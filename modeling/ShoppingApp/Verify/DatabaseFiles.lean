import ShoppingApp.DatabaseFiles
import ShoppingApp.Verify.UpdateList

/-!
# A database that is saved and loaded

A key comes back as itself from the name of its file (`withoutExtension_json`), unless it is empty,
and what is loaded has keys that can be names of files. So a database comes back as it was exactly
if all its keys can (`save_load_iff`): the others are lost without an error.
-/

namespace ShoppingApp

variable {fs : FileSystem} {text : JsonText} {db : Database} {directory : Directory}
  {files : List (String × String)}

/-! ## Names of files -/

theorem mem_withoutExtension {name : String} {c : Char} (h : c ∈ (withoutExtension name).toList) :
    c ∈ name.toList := by
  unfold withoutExtension at h
  split_ifs at h with hdots
  · exact h
  · split at h
    · rename_i dot c' cs hdrop
      rw [String.toList_ofList, List.mem_reverse] at h
      have hmem : c ∈ name.toList.reverse.dropWhile (· ≠ '.') := by
        rw [hdrop]
        exact List.mem_cons_of_mem _ h
      exact List.mem_reverse.1 ((List.dropWhile_sublist _).mem hmem)
    · exact h

theorem withoutExtension_ne_empty {name : String} (h : name ≠ "") : withoutExtension name ≠ "" := by
  unfold withoutExtension
  split_ifs with hdots
  · exact h
  · split
    · intro hempty
      have hlist := congrArg String.toList hempty
      rw [String.toList_ofList, List.reverse_cons] at hlist
      exact absurd hlist (List.concat_ne_nil _ _)
    · exact h

theorem reverse_json (key : String) : (key ++ ".json").toList.reverse =
    'n' :: 'o' :: 's' :: 'j' :: '.' :: key.toList.reverse := by
  rw [String.toList_append, List.reverse_append]
  rfl

theorem json_ne {name : String} (h : name.toList.reverse.head? ≠ some 'n') (key : String) :
    key ++ ".json" ≠ name := by
  rintro rfl
  rw [reverse_json] at h
  exact h rfl

/-- The key comes back from the name of its file. -/
theorem withoutExtension_json {key : String} (h : key ≠ "") :
    withoutExtension (key ++ ".json") = key := by
  obtain ⟨c, cs, hcs⟩ : ∃ c cs, key.toList.reverse = c :: cs := by
    refine List.exists_cons_of_ne_nil fun hnil => h ?_
    rw [← String.toList_inj, List.reverse_eq_nil_iff.1 hnil]
    rfl
  unfold withoutExtension
  rw [if_neg (json_ne (by decide) key), reverse_json, hcs]
  change String.ofList (c :: cs).reverse = key
  rw [← hcs, List.reverse_reverse, String.ofList_toList]

/-- A key that can be the name of a file. -/
structure Plain (key : String) : Prop where
  ne_empty : key ≠ ""
  no_slash : '/' ∉ key.toList
  no_nul : '\x00' ∉ key.toList

theorem Component.plain {name : String} (h : Component name) : Plain (withoutExtension name) where
  ne_empty := withoutExtension_ne_empty h.ne_empty
  no_slash hmem := h.no_slash (mem_withoutExtension hmem)
  no_nul hmem := h.no_nul (mem_withoutExtension hmem)

theorem Plain.component {key : String} (h : Plain key) : Component (key ++ ".json") := by
  have hchar : ∀ c : Char, c ∉ ".json".toList → c ∉ key.toList → c ∉ (key ++ ".json").toList := by
    intro c hjson hkey hmem
    rw [String.toList_append, List.mem_append] at hmem
    exact hmem.elim hkey hjson
  exact ⟨json_ne (by decide) key, json_ne (by decide) key, json_ne (by decide) key,
    hchar '/' (by decide) h.no_slash, hchar '\x00' (by decide) h.no_nul⟩

theorem cStr_of_no_nul {s : String} (h : '\x00' ∉ s.toList) : cStr s = s := by
  unfold cStr
  rw [List.takeWhile_eq_self_iff.2, String.ofList_toList]
  intro c hc
  rw [decide_eq_true_eq]
  rintro rfl
  exact h hc

/-- Where the file of such a key is. -/
theorem Plain.opens {key : String} (h : Plain key) : fs.opens (cStr (key ++ ".json")) =
    if fs.legal (key ++ ".json") then some (.file (key ++ ".json")) else none := by
  rw [cStr_of_no_nul h.component.no_nul, fs.opens_component _ h.component]

namespace Database

open RequestHandler

/-! ## What is saved and loaded -/

/-- A key that comes back: it can be the name of a file, and the file system takes that name. -/
structure Storable (fs : FileSystem) (key : String) : Prop extends Plain key where
  legal : fs.legal (key ++ ".json") = true

/-- The file that a value is written to, with what is written, if there is one. -/
def fileOf (fs : FileSystem) (text : JsonText) (e : String × Json) : Option (String × String) :=
  match fs.opens (cStr (e.1 ++ ".json")) with
  | some (.file name) => some (name, text.dump e.2)
  | _ => none

theorem save_eq : save fs text db directory =
    (db.entries.filterMap (fileOf fs text)).foldl (fun saved file => saved.set file.1 file.2) ∅ := by
  unfold save
  dsimp only
  rw [SortedMap.foldl_erase_entries, List.foldl_filterMap]
  refine List.foldl_ext _ _ _ fun saved e _ => ?_
  unfold saveValue fileOf
  rcases fs.opens (cStr (e.1 ++ ".json")) with _ | ⟨name⟩ | _ <;> rfl

theorem fileOf_plain {key : String} (h : Plain key) (value : Json) : fileOf fs text (key, value) =
    if fs.legal (key ++ ".json") then some (key ++ ".json", text.dump value) else none := by
  unfold fileOf
  rw [h.opens]
  split_ifs <;> rfl

/-- Every file that is saved is the file of some key. -/
theorem fileOf_of_mem_save {file : String × String} (h : file ∈ (save fs text db directory).entries) :
    ∃ e ∈ db.entries, fileOf fs text e = some file := by
  rw [← SortedMap.find?_eq_some, save_eq] at h
  rcases SortedMap.of_find?_foldl_set h with hnone | hmem
  · cases hnone
  · exact List.mem_filterMap.1 hmem

theorem component_of_mem_save {file : String × String}
    (h : file ∈ (save fs text db directory).entries) : Component file.1 := by
  obtain ⟨e, -, hfile⟩ := fileOf_of_mem_save h
  unfold fileOf at hfile
  split at hfile
  · rename_i name hopens
    cases hfile
    exact (fs.of_opens _ _ hopens).1
  · cases hfile

/-- Every key that is loaded comes from the name of a file. -/
theorem mem_keys_load {key : String} : ∀ {files : List (String × String)} {db db' : Database},
    load text files db = some db' → key ∈ db'.keys →
      key ∈ db.keys ∨ ∃ file ∈ files, withoutExtension file.1 = key
  | [], _, _, hload, hkey => by
    cases hload
    exact .inl hkey
  | file :: files, db, db', hload, hkey => by
    unfold load at hload
    rw [List.foldlM_cons, Option.bind_eq_bind, Option.bind_eq_some_iff] at hload
    obtain ⟨db'', hfirst, hrest⟩ := hload
    obtain ⟨value, -, hset⟩ := Option.bind_eq_some_iff.1 hfirst
    cases hset
    rcases mem_keys_load hrest hkey with hthere | ⟨file', hfile', hname⟩
    · obtain ⟨v, hv⟩ := (SortedMap.mem_keys _).1 hthere
      rw [SortedMap.find?_set] at hv
      split_ifs at hv with hsame
      · exact .inr ⟨file, List.mem_cons_self, hsame.symm⟩
      · exact .inl ((SortedMap.mem_keys _).2 ⟨v, hv⟩)
    · exact .inr ⟨file', List.mem_cons_of_mem _ hfile', hname⟩

/-- Loading files that were written. -/
theorem load_written : ∀ {es : List (String × Json)} {db : Database},
    (∀ e ∈ es, e.1 ≠ "" ∧ text.parse (text.dump e.2) = some e.2) →
      load text (es.map fun e => (e.1 ++ ".json", text.dump e.2)) db =
        some (es.foldl (fun db e => db.set e.1 e.2) db)
  | [], _, _ => rfl
  | e :: es, db, h => by
    obtain ⟨hne, hparse⟩ := h e List.mem_cons_self
    unfold load
    rw [List.map_cons, List.foldlM_cons, Option.bind_eq_bind]
    dsimp only
    rw [hparse, withoutExtension_json hne]
    exact load_written fun e' he' => h e' (List.mem_cons_of_mem _ he')

/-- **When a database comes back** from its files, read in any order: exactly if all its keys are
non-empty, without a slash and a NUL, and the file system takes their names. -/
theorem save_load_iff
    (htext : ∀ key value, db.find? key = some value → text.parse (text.dump value) = some value)
    (hfiles : files.Perm (save fs text db directory).entries) :
    load text files ∅ = some db ↔ ∀ key ∈ db.keys, Storable fs key := by
  constructor
  · intro hload
    have hfile : ∀ key ∈ db.keys, ∃ file ∈ (save fs text db directory).entries,
        withoutExtension file.1 = key := by
      intro key hkey
      rcases mem_keys_load hload hkey with hnone | ⟨file, hmem, hname⟩
      · cases hnone
      · exact ⟨file, hfiles.mem_iff.1 hmem, hname⟩
    have hplain : ∀ key ∈ db.keys, Plain key := by
      intro key hkey
      obtain ⟨file, hmem, rfl⟩ := hfile key hkey
      exact (component_of_mem_save hmem).plain
    intro key hkey
    -- the file that the key comes from is its own
    obtain ⟨file, hmem, hname⟩ := hfile key hkey
    obtain ⟨⟨key', value⟩, hentry, hfileOf⟩ := fileOf_of_mem_save hmem
    have hplain' : Plain key' := hplain key' (List.mem_map_of_mem hentry)
    rw [fileOf_plain hplain'] at hfileOf
    split_ifs at hfileOf with hlegal
    cases hfileOf
    obtain rfl : key' = key := (withoutExtension_json hplain'.ne_empty).symm.trans hname
    exact ⟨hplain', hlegal⟩
  · intro hstorable
    have hkey : ∀ e ∈ db.entries, Storable fs e.1 := fun e he =>
      hstorable e.1 (List.mem_map_of_mem he)
    have hwritten : db.entries.filterMap (fileOf fs text) =
        db.entries.map fun e => (e.1 ++ ".json", text.dump e.2) := by
      rw [← List.filterMap_eq_map]
      refine List.filterMap_congr fun e he => ?_
      rw [fileOf_plain (hkey e he).toPlain, if_pos (hkey e he).legal]
      rfl
    have hdistinct : (db.entries.map fun e => (e.1 ++ ".json", text.dump e.2)).Pairwise
        fun a b => a.1 ≠ b.1 :=
      List.pairwise_map.2 (db.distinct.imp fun hne heq => hne ((String.append_left_inj _).1 heq))
    rw [save_eq, hwritten] at hfiles
    obtain ⟨es, rfl, hperm⟩ := SortedMap.exists_of_perm_foldl_set hdistinct hfiles
    rw [load_written, SortedMap.foldl_set_of_perm hperm]
    intro e he
    have hmem := hperm.mem_iff.1 he
    exact ⟨(hkey e hmem).ne_empty, htext e.1 e.2 ((SortedMap.find?_eq_some _).2 hmem)⟩

/-- A file system with names of up to 255 bytes, as far as paths without directories go. -/
def flatFileSystem : FileSystem where
  legal name := decide (name.utf8ByteSize ≤ 255)
  opens path := if Component path ∧ path.utf8ByteSize ≤ 255 then some (.file path) else none
  opens_component name h := by simp [h]
  of_opens path name h := by
    split_ifs at h with hpath
    cases h
    exact ⟨hpath.1, decide_eq_true hpath.2⟩

/-- What a first update stores, and the text of its file. -/
def storedList : ShoppingList := (ShoppingList.blank.join newList).2

def storedListFile : String :=
  "\x7b\n    \"id\": \"\",\n    \"items\": \x7b\n        \"context\": \x7b\n" ++
    "            \"dc\": [],\n            \"vc\": \x7b\x7d\n        \x7d,\n" ++
    "        \"map\": \x7b\x7d\n    \x7d,\n    \"title\": \"party\",\n" ++
    "    \"url\": \"msla-user1\"\n\x7d"

def storedListText : JsonText where
  parse s := if s = storedListFile then some storedList.toJson else none
  dump _ := storedListFile

theorem parse_dump_storedList :
    storedListText.parse (storedListText.dump storedList.toJson) = some storedList.toJson := by
  unfold storedListText
  dsimp only
  exact if_pos rfl

/-- Two lists, one with a dot in its key. -/
theorem save_load_iff_two :
    load storedListText (save flatFileSystem storedListText
        ((SortedMap.set ∅ "msla-user1" storedList.toJson).set "party.v2" storedList.toJson)
        ∅).entries.reverse ∅ =
      some ((SortedMap.set ∅ "msla-user1" storedList.toJson).set "party.v2" storedList.toJson) := by
  refine (save_load_iff (fun key value h => ?_) (List.reverse_perm _)).2 fun key hkey => ?_
  · rw [SortedMap.find?_set, SortedMap.find?_set, SortedMap.find?_empty] at h
    split_ifs at h
    all_goals
      cases h
      exact parse_dump_storedList
  · obtain ⟨value, h⟩ := (SortedMap.mem_keys _).1 hkey
    rw [SortedMap.find?_set, SortedMap.find?_set, SortedMap.find?_empty] at h
    split_ifs at h with hparty huser
    · rw [hparty]
      exact ⟨⟨by decide, by decide, by decide⟩, by decide⟩
    · rw [huser]
      exact ⟨⟨by decide, by decide, by decide⟩, by decide⟩

/-- A list that an update stores under a url with a slash is gone after a restart. -/
theorem key_with_slash_lost :
    ¬ ∀ (fs : FileSystem) (text fileText : JsonText) (requests : List Request) (db : Database)
      (directory : Directory) (files : List (String × String)),
      processRequests text requests ∅ = some db →
      (∀ key value, db.find? key = some value →
        fileText.parse (fileText.dump value) = some value) →
      files.Perm (save fs fileText db directory).entries → load fileText files ∅ = some db := by
  intro h
  have hblank : ShoppingList.fromJson (Database.get ∅ "lists/1") ShoppingList.blank =
      some ShoppingList.blank := rfl
  have hrun : processRequests sampleText
      ([] ++ [⟨"lists/1", "UPDATE_LIST", [newListText "user1"]⟩]) ∅ =
      some (SortedMap.set ∅ "lists/1" storedList.toJson) :=
    processRequests_snoc.2 ⟨∅, _, rfl, handleRequest_update_eq parse_newListText
      ((ShoppingList.WF.new _ _ _).fromJson_toJson "" "" "") hblank []⟩
  have hlossless : ∀ key value, SortedMap.find? (SortedMap.set ∅ "lists/1" storedList.toJson) key =
      some value → storedListText.parse (storedListText.dump value) = some value := by
    intro key value hvalue
    rw [SortedMap.find?_set, SortedMap.find?_empty] at hvalue
    split_ifs at hvalue
    cases hvalue
    exact parse_dump_storedList
  have hload := h flatFileSystem sampleText storedListText _ _ ∅ [] hrun hlossless
    (.of_eq (by decide))
  cases hload

end Database

end ShoppingApp
