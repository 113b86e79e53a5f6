/-
Parameters that the command line gives. A name may be given many times, and the two places
that a list of pairs goes through order the names by different rules: where pairs are
collected, a name stands where it was mentioned first, with the value mentioned last; in the
persistent store it stands where it was set last. As the store is filled from what was
collected, each name is set once, and the store holds the names at the end of that order,
as many as it has room for.
-/
import Mathlib.Data.List.DropRight
import TagTemplate.CommandLine.Basic
import TagTemplate.Proofs.Store.Refinement

namespace TagTemplate

/-! ## Collecting pairs -/

namespace Entries

/-- Entries that collect pairs: each name once, in the order of the first mentions, with the
value of its last mention. -/
structure Collects (es : Entries) (pairs : List (Text × Text)) : Prop where
  names : es.names = (pairs.map (·.1)).eraseDups
  value : ∀ e ∈ es, pairs.reverse.lookup e.1 = some e.2

theorem ofList_concat (pairs : List (Text × Text)) (p : Text × Text) :
    ofList (pairs ++ [p]) = (ofList pairs).insert p.1 p.2 := by
  simp only [ofList, List.foldl_append, List.foldl_cons, List.foldl_nil]

/-- No name stands in the list twice. -/
theorem nodup_names_ofList (pairs : List (Text × Text)) : (ofList pairs).names.Nodup := by
  induction pairs using List.reverseRecOn with
  | nil => exact List.nodup_nil
  | append_singleton pairs p ih =>
    rw [ofList_concat]
    exact nodup_insert ih p.1 p.2

/-- What is found under a name is the value of its last mention. -/
theorem find?_ofList (pairs : List (Text × Text)) (name : Text) :
    (ofList pairs).find? name = pairs.reverse.lookup name := by
  induction pairs using List.reverseRecOn with
  | nil => rfl
  | append_singleton pairs p ih =>
    rw [ofList_concat, find?_insert, ih, List.reverse_append, List.reverse_singleton,
      List.singleton_append]
    obtain ⟨k, v⟩ := p
    by_cases hname : k = name
    · simp [hname]
    · have hne : (name == k) = false := by simpa using Ne.symm hname
      simp [List.lookup_cons, hname, hne]

theorem names_ofList (pairs : List (Text × Text)) :
    (ofList pairs).names = (pairs.map (·.1)).eraseDups := by
  induction pairs using List.reverseRecOn with
  | nil => rfl
  | append_singleton pairs p ih =>
    have hmentioned : ((ofList pairs).find? p.1).isSome = true ↔ p.1 ∈ pairs.map (·.1) := by
      rw [isSome_find?_iff, ih, List.mem_eraseDups]
    simp only [ofList_concat, names_insert, hmentioned, ih, List.map_append, List.eraseDups_append]
    split
    · next hold => simp [List.removeAll, hold]
    · next hnew => simp [List.removeAll, hnew, List.eraseDups_cons]

/-- Pairs with distinct names are collected as they are. -/
theorem ofList_of_nodup {pairs : List (Text × Text)} (h : (names pairs).Nodup) :
    ofList pairs = pairs := by
  induction pairs using List.reverseRecOn with
  | nil => rfl
  | append_singleton pairs p ih =>
    rw [names, List.map_append, List.nodup_append] at h
    obtain ⟨hpairs, -, hnew⟩ := h
    have habsent : ¬(find? pairs p.1).isSome = true := by
      rw [isSome_find?_iff]
      exact fun hmem => hnew p.1 hmem p.1 (by simp) rfl
    rw [ofList_concat, ih hpairs, insert, if_neg habsent]

/-- A name that is mentioned again keeps its place and has the later value. -/
theorem ofList_mentioned_again {es : Entries} {name : Text} (hnodup : es.names.Nodup)
    (hname : name ∉ es.names) (old value : Text) :
    ofList ((name, old) :: es ++ [(name, value)]) = (name, value) :: es := by
  have hothers : es.map (fun e => if e.1 == name then (name, value) else e) = es := by
    refine (List.map_congr_left fun e he => if_neg fun h => hname ?_).trans (List.map_id es)
    exact List.mem_map.2 ⟨e, he, beq_iff_eq.1 h⟩
  have hfirst : (names ((name, old) :: es)).Nodup := List.nodup_cons.2 ⟨hname, hnodup⟩
  have hfound : (find? ((name, old) :: es) name).isSome = true := by simp [find?]
  rw [ofList_concat, ofList_of_nodup hfirst, insert, if_pos hfound, List.map_cons, hothers]
  simp

theorem collects_ofList (pairs : List (Text × Text)) : (ofList pairs).Collects pairs where
  names := names_ofList pairs
  value := by
    intro e he
    rw [← find?_ofList, find?_eq_some_iff (nodup_names_ofList pairs)]
    exact he

end Entries

/-! ## Filling the store -/

namespace Recency

/-- What does not find room at the end of a list is its first item. -/
theorem evict_concat {α : Type} (l : List α) (x : α) (room : Nat) :
    (if (room : Int) < (l.rtake room ++ [x]).length then (l.rtake room ++ [x]).tail
      else l.rtake room ++ [x]) = (l ++ [x]).rtake room := by
  have hconcat : l.rtake room ++ [x] = (l ++ [x]).drop (l.length - room) :=
    (List.drop_append_of_le_length (Nat.sub_le ..)).symm
  rw [hconcat, List.tail_drop, List.length_drop, List.length_append, List.length_singleton,
    List.rtake, List.length_append, List.length_singleton]
  split <;> congr 1 <;> omega

/-- A store into which distinct names are put one after another has the last of them. -/
theorem insertAll_empty (capacity : Nat) {pairs : List (Text × Text)}
    (hnodup : (Entries.names pairs).Nodup) :
    (empty capacity).insertAll pairs = ⟨capacity, pairs.rtake capacity⟩ := by
  induction pairs using List.reverseRecOn with
  | nil => rw [List.rtake_nil]; rfl
  | append_singleton pairs p ih =>
    rw [Entries.names, List.map_append, List.nodup_append] at hnodup
    obtain ⟨hpairs, -, hnew⟩ := hnodup
    have herase : Entries.erase (pairs.rtake capacity) p.1 = pairs.rtake capacity := by
      refine List.filter_eq_self.2 fun e he => ?_
      have hmem : e.1 ∈ pairs.map (·.1) := List.mem_map_of_mem (List.mem_of_mem_drop he)
      simpa using hnew e.1 hmem p.1 (by simp)
    have hstep : (empty capacity).insertAll (pairs ++ [p]) =
        ((empty capacity).insertAll pairs).insert p.1 p.2 := by
      simp only [insertAll, List.foldl_append, List.foldl_cons, List.foldl_nil]
    simp only [hstep, ih hpairs, insert, herase, evict_concat]

end Recency

theorem Store.insertAll_bounded (r : Recency) (pairs : List (Text × Text)) :
    (Store.bounded r).insertAll pairs = .bounded (r.insertAll pairs) := by
  induction pairs generalizing r with
  | nil => rfl
  | cons p pairs ih => exact ih (r.insert p.1 p.2)

namespace CommandLine

/-! ## Words -/

/-- A word that gives no parameter: it has no equals sign, or begins with one. -/
def IsMalformed (word : Text) : Prop := ↑ '=' ∉ word.toList ∨ word.toList.head? = some ↑ '='

instance : DecidablePred IsMalformed := fun _ => inferInstanceAs (Decidable (_ ∨ _))

/-- A word that gives a parameter: the name is what stands before the first equals sign. -/
def Gives (word : Text) (pair : Text × Text) : Prop :=
  word.toList = pair.1.toList ++ ↑ '=' :: pair.2.toList ∧ ↑ '=' ∉ pair.1.toList ∧ pair.1 ≠ ""

/-- The words that are not malformed are the ones that give a parameter. -/
theorem not_isMalformed_iff {word : Text} : ¬IsMalformed word ↔ ∃ pair, Gives word pair := by
  simp only [IsMalformed, not_or, not_not]
  constructor
  · rintro ⟨hmem, hhead⟩
    obtain ⟨name, value, hword, hname⟩ := List.eq_append_cons_of_mem hmem
    have hne : name ≠ [] := by
      rintro rfl
      exact hhead (by rw [hword]; rfl)
    refine ⟨(Text.ofList name, Text.ofList value), ?_, ?_, ?_⟩
    · simpa using hword
    · simpa using hname
    · simpa using hne
  · rintro ⟨⟨name, value⟩, hword, hmem, hne⟩
    refine ⟨by simp [hword], fun hhead => ?_⟩
    obtain ⟨c, cs, hname⟩ : ∃ c cs, name.toList = c :: cs :=
      List.exists_cons_of_ne_nil (by simpa using hne)
    rw [hword, hname, List.cons_append, List.head?_cons, Option.some.injEq] at hhead
    exact hmem (by rw [hname, hhead]; exact List.mem_cons_self)

theorem split_equals {name : List CodePoint} (hname : ↑ '=' ∉ name) (value : List CodePoint) :
    (name ++ ↑ '=' :: value).takeWhile (· != ↑ '=') = name ∧
      (name ++ ↑ '=' :: value).dropWhile (· != ↑ '=') = ↑ '=' :: value := by
  have hall : ∀ c ∈ name, (c != ↑ '=') = true :=
    fun c hc => bne_iff_ne.2 (ne_of_mem_of_not_mem hc hname)
  constructor
  · rw [List.takeWhile_append_of_pos hall, List.takeWhile_cons_of_neg (by simp), List.append_nil]
  · rw [List.dropWhile_append_of_pos hall, List.dropWhile_cons_of_neg (by simp)]

theorem splitPair?_of_not_mem {word : Text} (h : ↑ '=' ∉ word.toList) :
    splitPair? word = none := by
  have hrest : word.toList.dropWhile (· != ↑ '=') = [] :=
    List.dropWhile_eq_nil_iff.2 fun c hc => bne_iff_ne.2 (ne_of_mem_of_not_mem hc h)
  simp only [splitPair?, hrest]

/-- A word is split at its first equals sign, if a name stands before it. -/
theorem splitPair?_of_eq_append {word : Text} {name value : List CodePoint}
    (hword : word.toList = name ++ ↑ '=' :: value) (hname : ↑ '=' ∉ name) :
    splitPair? word =
      if name.isEmpty then none else some (Text.ofList name, Text.ofList value) := by
  obtain ⟨hbefore, hrest⟩ := split_equals hname value
  simp only [splitPair?, hword, hbefore, hrest]

theorem splitPair?_of_malformed {word : Text} (h : IsMalformed word) :
    splitPair? word = none := by
  rcases h with hmem | hhead
  · exact splitPair?_of_not_mem hmem
  · obtain ⟨value, hvalue⟩ := List.head?_eq_some_iff.1 hhead
    have hword : word.toList = [] ++ ↑ '=' :: value := hvalue
    exact splitPair?_of_eq_append hword List.not_mem_nil

theorem splitPair?_of_gives {word : Text} {pair : Text × Text} (h : Gives word pair) :
    splitPair? word = some pair := by
  obtain ⟨hword, hmem, hname⟩ := h
  have hne : pair.1.toList.isEmpty = false := by simpa using hname
  rw [splitPair?_of_eq_append hword hmem, hne]
  simp

/-! ## Lists of words -/

/-- Words that all give parameters: these are set one after another. -/
theorem foldlM_readPair_of_gives {words : List Text} {pairs : List (Text × Text)}
    (h : List.Forall₂ Gives words pairs) (es : Entries) :
    words.foldlM readPair es = .ok (pairs.foldl (fun es p => es.insert p.1 p.2) es) := by
  induction h generalizing es with
  | nil => rfl
  | cons hword _ ih =>
    rw [List.foldlM_cons, readPair, splitPair?_of_gives hword]
    exact ih _

/-- The first word that is malformed ends the reading. -/
theorem foldlM_readPair_of_malformed {words : List Text} {word : Text}
    (h : words.find? (IsMalformed ·) = some word) (es : Entries) :
    words.foldlM readPair es = .error (.pairExpected word) := by
  induction words generalizing es with
  | nil => cases h
  | cons first words ih =>
    rw [List.foldlM_cons, readPair]
    by_cases hfirst : IsMalformed first
    · have hword : first = word := by simpa [List.find?_cons, hfirst] using h
      rw [splitPair?_of_malformed hfirst, hword]
      rfl
    · obtain ⟨pair, hpair⟩ := not_isMalformed_iff.1 hfirst
      rw [splitPair?_of_gives hpair]
      exact ih (by simpa [List.find?_cons, hfirst] using h) _

/-- Words of which none is malformed give a list of parameters. -/
theorem exists_forall₂_gives {words : List Text} (h : ∀ word ∈ words, ¬IsMalformed word) :
    ∃ pairs, List.Forall₂ Gives words pairs := by
  induction words with
  | nil => exact ⟨[], .nil⟩
  | cons word words ih =>
    obtain ⟨pair, hpair⟩ := not_isMalformed_iff.1 (h word List.mem_cons_self)
    obtain ⟨pairs, hpairs⟩ := ih fun w hw => h w (List.mem_cons_of_mem _ hw)
    exact ⟨pair :: pairs, .cons hpair hpairs⟩

theorem readPairs_eq_error_iff (words : List Text) (f : Fault) :
    readPairs words = .error f ↔
      ∃ word, words.find? (IsMalformed ·) = some word ∧ f = .pairExpected word := by
  constructor
  · intro hfault
    cases hfind : words.find? (IsMalformed ·) with
    | some word =>
      rw [readPairs, foldlM_readPair_of_malformed hfind] at hfault
      exact ⟨word, rfl, (Except.error.inj hfault).symm⟩
    | none =>
      have hnone := List.find?_eq_none.1 hfind
      obtain ⟨pairs, hpairs⟩ := exists_forall₂_gives fun word hword => by
        simpa using hnone word hword
      rw [readPairs, foldlM_readPair_of_gives hpairs] at hfault
      cases hfault
  · rintro ⟨word, hfind, rfl⟩
    exact foldlM_readPair_of_malformed hfind []

/-- What words without a malformed one are read as. -/
theorem readPairs_of_gives {words : List Text} {pairs : List (Text × Text)}
    (h : List.Forall₂ Gives words pairs) : readPairs words = .ok (Entries.ofList pairs) :=
  foldlM_readPair_of_gives h []

/-! ## The store of a command -/

theorem ofArguments_eq_ok {a : Arguments} {parameters persistent : Entries}
    (hparameters : readPairs a.parameters = .ok parameters)
    (hpersistent : readPairs (a.given .persistent) = .ok persistent) :
    Request.ofArguments a = .ok ⟨parameters, persistent⟩ := by
  rw [Request.ofArguments, hparameters, hpersistent]
  rfl

theorem persistent_sink (parameters : Entries) {persistent : Entries}
    (hnodup : persistent.names.Nodup) :
    (Request.sink ⟨parameters, persistent⟩).persistent = .bounded ⟨128, persistent.rtake 128⟩ := by
  have hfilled : (Recency.empty 128).insertAll persistent = ⟨128, persistent.rtake 128⟩ :=
    Recency.insertAll_empty 128 hnodup
  rw [Request.sink, Sink.fresh, Store.insertAll_bounded, Recency.defaultCapacity, hfilled]

/-! ## Words on the command line -/

/-- An option in its long form may have any argument. -/
theorem Word.ofText_long (f : Flag) (argument : Text) :
    Word.ofText (f.long ++ "=" ++ argument) = .ok (.option f (some argument)) := by
  obtain ⟨name, hlong, hmem, hname⟩ : ∃ name, f.long.toList = ↑ '-' :: ↑ '-' :: name ∧
      ↑ '=' ∉ name ∧ Flag.ofLong (Text.ofList (↑ '-' :: ↑ '-' :: name)) = [f] := by
    cases f <;> exact ⟨_, rfl, by decide +kernel, by decide +kernel⟩
  have hchars : (f.long ++ "=" ++ argument).toList =
      ↑ '-' :: ↑ '-' :: (name ++ ↑ '=' :: argument.toList) := by
    rw [Text.toList_append, Text.toList_append, hlong]
    simp
  obtain ⟨hbefore, hrest⟩ := split_equals hmem argument.toList
  simp only [Word.ofText, hchars, hbefore, hrest, hname, List.tail_cons, Text.ofList_toList]
  rw [if_pos (by simp)]

theorem Word.ofText_plain {s : Text} (h : s.toList.head? ≠ some ↑ '-') :
    Word.ofText s = .ok (.plain s) := by
  unfold Word.ofText
  split
  · next hs => simp [hs] at h
  · next hs => simp [hs] at h
  · rfl

/-- A list of words, each as the argument of the option for persistent parameters. -/
def persistentWords (words : List Text) : List Text :=
  words.map (Flag.persistent.long ++ "=" ++ ·)

theorem readWords_persistentWords (words : List Text) :
    readWords (persistentWords words) =
      .ok (words.map fun word => .option .persistent (some word)) := by
  induction words with
  | nil => rfl
  | cons word words ih =>
    have hne : Flag.persistent.long ++ "=" ++ word ≠ "--" := by
      intro heq
      have hmem : ↑ '=' ∈ ("--" : Text).toList := heq ▸ (by simp)
      exact absurd hmem (by decide +kernel)
    rw [persistentWords] at ih ⊢
    rw [List.map_cons, readWords, if_neg hne, Word.ofText_long, ih]
    rfl

theorem takeWords_persistent (words : List Text) :
    ∀ (a : Arguments) (run : List Word),
      let closed := Arguments.takeWords.close a run
      a.takeWords run (words.map fun word => .option .persistent (some word)) =
        .ok { closed with options := closed.options ++ words.map (Flag.persistent, ·) } := by
  induction words with
  | nil =>
    intro a run
    simp [Arguments.takeWords]
  | cons word words ih =>
    intro a run
    have htakes : Flag.persistent.takesArgument = true := rfl
    simp [Arguments.takeWords, htakes, ih, Arguments.addOption, Arguments.takeWords.close]

/-- Every list of words can be given on the command line for the persistent parameters. -/
theorem ofWords_persistentWords {file : Text} (hfile : file.toList.head? ≠ some ↑ '-')
    (words : List Text) :
    Arguments.ofWords (file :: persistentWords words) =
      .ok ⟨some file, [], [], words.map (Flag.persistent, ·)⟩ := by
  have hne : file ≠ "--" := by
    rintro rfl
    exact hfile rfl
  have hhelp : Arguments.has ⟨some file, [], [], words.map (Flag.persistent, ·)⟩ .help = false := by
    simp [Arguments.has]
  have htaken : Arguments.empty.takeWords []
      (.plain file :: words.map fun word => .option .persistent (some word)) =
        .ok ⟨some file, [], [], words.map (Flag.persistent, ·)⟩ := by
    rw [Arguments.takeWords, takeWords_persistent]
    simp [Arguments.takeWords.close, Arguments.takeRun, Arguments.empty]
  rw [Arguments.ofWords, readWords, if_neg hne, Word.ofText_plain hfile,
    readWords_persistentWords]
  simp only [bind, Except.bind, pure, Except.pure, htaken, hhelp]
  rfl

/-- **Parameters from the command line.** Words can be read as parameters exactly if none of
them lacks an equals sign or begins with one, and otherwise the fault shows the first that
does. What is read has each name once, in the order of the first mentions, with the value of
its last mention. The persistent store that is filled with it has the last 128 names of that
order, the first of them as the one to go first, with these values; so up to 128 names all
stay, however often they are mentioned. Any list of words can be given for the store. -/
theorem seeding (words : List Text) :
    (∀ f, readPairs words = .error f ↔
      ∃ word, words.find? (IsMalformed ·) = some word ∧ f = .pairExpected word) ∧
    ((∀ word ∈ words, ¬IsMalformed word) →
      ∃ pairs es, List.Forall₂ Gives words pairs ∧ readPairs words = .ok es ∧ es.Collects pairs ∧
        ∀ a parameters, a.given .persistent = words → readPairs a.parameters = .ok parameters →
          ∃ r, Request.ofArguments a = .ok r ∧ r.parameters = parameters ∧
            r.sink.persistent = .bounded ⟨128, es.rtake 128⟩ ∧
            (es.length ≤ 128 → r.sink.persistent.entries = es)) ∧
    ∀ file, file.toList.head? ≠ some ↑ '-' →
      ∃ a, Arguments.ofWords (file :: persistentWords words) = .ok a ∧ a.file = some file ∧
        a.parameters = [] ∧ a.given .persistent = words := by
  refine ⟨readPairs_eq_error_iff words, fun hwords => ?_, fun file hfile => ?_⟩
  · obtain ⟨pairs, hpairs⟩ := exists_forall₂_gives hwords
    have hread := readPairs_of_gives hpairs
    refine ⟨pairs, _, hpairs, hread, Entries.collects_ofList pairs, ?_⟩
    rintro a parameters rfl hparameters
    have hstore := persistent_sink parameters (Entries.nodup_names_ofList pairs)
    refine ⟨_, ofArguments_eq_ok hparameters hread, rfl, hstore, fun hfew => ?_⟩
    rw [hstore, Store.entries, List.rtake, Nat.sub_eq_zero_of_le hfew, List.drop_zero]
  · refine ⟨_, ofWords_persistentWords hfile words, rfl, rfl, ?_⟩
    simp [Arguments.given, List.filter_map, Function.comp_def]

/-- Of 129 names the one mentioned first is lost, although it is mentioned again at the end. -/
theorem seeding_beyond_capacity :
    let name (i : Nat) : Text := Text.ofList (List.replicate i ('a' : CodePoint))
    let others : Entries := (List.range 128).map fun i => (name (i + 2), "1")
    let pairs : Entries := (name 1, ↑"1") :: (others ++ ([(name 1, "2")] : Entries))
    let words : List Text := pairs.map fun p => p.1 ++ "=" ++ p.2
    (∀ word ∈ words, ¬IsMalformed word) ∧ ("script" : Text).toList.head? ≠ some ↑ '-' ∧
      ∃ a r, Arguments.ofWords ("script" :: persistentWords words) = .ok a ∧
        Request.ofArguments a = .ok r ∧ r.sink.persistent.entries = others := by
  intro name others pairs words
  have hgives : ∀ p ∈ pairs, Gives (p.1 ++ "=" ++ p.2) p := by
    have hgive (i : Nat) (value : Text) :
        Gives (name (i + 1) ++ "=" ++ value) (name (i + 1), value) := by
      simp [Gives, name]
    intro p hp
    simp only [pairs, others, List.mem_cons, List.mem_append, List.mem_map, List.not_mem_nil,
      or_false] at hp
    rcases hp with rfl | ⟨i, -, rfl⟩ | rfl
    · exact hgive 0 "1"
    · exact hgive (i + 1) "1"
    · exact hgive 0 "2"
  have hinj : Function.Injective fun i => name (i + 2) := fun i j h => by
    simpa [name] using congrArg (·.toList.length) h
  have hnames : others.names = (List.range 128).map fun i => name (i + 2) := by
    rw [Entries.names, List.map_map]
    rfl
  have hnew : name 1 ∉ others.names := by
    rw [hnames]
    simp [name, ← Text.toList_inj, List.replicate_succ]
  have hread : readPairs words = .ok ((name 1, ↑"2") :: others) := by
    rw [← Entries.ofList_mentioned_again (hnames ▸ List.nodup_range.map hinj) hnew "1"]
    exact readPairs_of_gives (List.forall₂_map_left_iff.2 (List.forall₂_same.2 hgives))
  have hwords : ∀ word ∈ words, ¬IsMalformed word := by
    intro word hword
    obtain ⟨p, hp, rfl⟩ := List.mem_map.1 hword
    exact not_isMalformed_iff.2 ⟨p, hgives p hp⟩
  have hfile : ("script" : Text).toList.head? ≠ some ↑ '-' := by decide +kernel
  obtain ⟨-, hseeded, hgiven⟩ := seeding words
  obtain ⟨_, es, -, hes, -, hstore⟩ := hseeded hwords
  obtain ⟨a, ha, -, hparameters, hpersistent⟩ := hgiven "script" hfile
  obtain ⟨r, hr, -, hsink, -⟩ := hstore a [] hpersistent (by rw [hparameters]; rfl)
  obtain rfl : es = (name 1, ↑"2") :: others := Except.ok.inj (hes.symm.trans hread)
  refine ⟨hwords, hfile, a, r, ha, hr, ?_⟩
  rw [hsink, Store.entries, List.rtake, List.length_cons, List.length_map, List.length_range]
  rfl

/-- A name that is mentioned twice, and values with an equals sign and without a character. -/
example : readPairs ["a=1", "b=", "a=x=y"] = .ok [("a", "x=y"), ("b", "")] := rfl

end CommandLine

end TagTemplate
