/-
Numbers that are kept as texts. The parameter sets hold nothing but texts, and a loop reads its
bounds from them. A number is read back from its text as it was, so a text that was made of a number
does whatever the number does: no token of an echo can tell the two apart.
-/
import TagTemplate.Proofs.Engine.Counting
import TagTemplate.Proofs.Engine.Expressions

namespace TagTemplate

/-! ## What can be found out about a value -/

/-- All that a token finds out about a value: its text and the number that it stands for, or why it
has none and stands for none. -/
def Datum.observed (d : Datum) : Except Fault Text × Except Fault Number := (d.toText, d.toNumber)

def Stack.observed (stack : Stack) : List (Except Fault Text × Except Fault Number) :=
  stack.map Datum.observed

/-- A number has a text: its integers have 64 bits. -/
theorem Datum.toText_ofNumber (v : Number) : (ofNumber v).toText = .ok v.text := by
  cases v with
  | integer n =>
    exact Number.writeInteger_of_le (Number.size_le_of_fitsInt64 (Number.fitsInt64_toInt n))
  | double x => rfl

/-- **A number is not told from its text.** -/
theorem Datum.observed_ofNumber (v : Number) : (ofNumber v).observed = (text v.text).observed := by
  have htext := toText_ofNumber v
  have hnumber : (ofNumber v).toNumber = .ok v := by
    cases v with
    | double x => rfl
    | integer n =>
      have hfits := Number.fitsInt64_toInt n
      simp only [ofNumber, toNumber, operand, Operand.toNumber, hfits, if_true, Int64.ofInt_toInt]
  rw [observed, observed, htext, hnumber]
  exact Prod.ext rfl (Operand.toNumber_of_ofText? (Number.ofText?_text v)).symm

/-- Steps that come to values that are the same in this respect go on alike if nothing else of the
values is used. -/
theorem Action.bind_congr_of_map {α β γ : Type} {x y : Action α} {g : α → β} {f h : α → Action γ}
    (hxy : g <$> x = g <$> y) (hfh : ∀ a b, g a = g b → f a = h b) : x >>= f = y >>= h := by
  funext s
  have hs := congrFun hxy s
  rw [map_eq_pure_bind, map_eq_pure_bind] at hs
  cases hx : x s with
  | ok a s₁ =>
    rw [bind_of_ok hx] at hs ⊢
    cases hy : y s with
    | ok b s₂ =>
      rw [bind_of_ok hy] at hs ⊢
      obtain ⟨hg, rfl⟩ := EStateM.Result.ok.inj hs
      rw [hfh a b hg]
    | error err s₂ =>
      rw [bind_of_error hy] at hs
      cases hs
  | error err s₁ =>
    rw [bind_of_error hx] at hs ⊢
    cases hy : y s with
    | ok b s₂ =>
      rw [bind_of_ok hy] at hs
      cases hs
    | error err' s₂ =>
      rw [bind_of_error hy] at hs ⊢
      obtain ⟨rfl, rfl⟩ := EStateM.Result.error.inj hs
      rfl

/-! ## Functions and operators -/

section Observed

variable {d d' e e' : Datum} {stack stack' : Stack}

theorem operate_observed (symbol : Text) (hd : d.observed = d'.observed)
    (he : e.observed = e'.observed) :
    Number.operate d.operand symbol e.operand = Number.operate d'.operand symbol e'.operand := by
  have hleft : d.operand.toNumber = d'.operand.toNumber := congrArg Prod.snd hd
  have hright : e.operand.toNumber = e'.operand.toNumber := congrArg Prod.snd he
  rw [Number.operate, Number.operate, hleft, hright]

theorem sine_observed (hd : d.observed = d'.observed) : Builtin.sine d = Builtin.sine d' := by
  have hnumber : d.toNumber = d'.toNumber := congrArg Prod.snd hd
  rw [Builtin.sine, Builtin.sine, hnumber]

theorem formatted_observed (hd : d.observed = d'.observed) (pattern : Text) :
    Builtin.formatted d pattern = Builtin.formatted d' pattern := by
  have hnumber : d.toNumber = d'.toNumber := congrArg Prod.snd hd
  rw [Builtin.formatted, Builtin.formatted, hnumber]

theorem orDefault_observed (value : Option Text) (hd : d.observed = d'.observed) :
    (Builtin.orDefault value d).observed = (Builtin.orDefault value d').observed := by
  cases value with
  | some s => rfl
  | none => exact hd

theorem observed_cons (hd : d.observed = d'.observed) (h : stack.observed = stack'.observed) :
    Stack.observed (d :: stack) = Stack.observed (d' :: stack') := by
  rw [Stack.observed, Stack.observed, List.map_cons, List.map_cons, hd]
  exact congrArg _ h

/-- What is taken from two stacks that look the same looks the same. -/
theorem pop_observed (token : Token) (h : stack.observed = stack'.observed)
    {f : Datum × Stack → Action Stack}
    (hf : ∀ d d' rest rest', d.observed = d'.observed → Stack.observed rest = Stack.observed rest' →
      Stack.observed <$> f (d, rest) = Stack.observed <$> f (d', rest')) :
    Stack.observed <$> (Action.ofExcept (stack.pop token) >>= f) =
      Stack.observed <$> (Action.ofExcept (stack'.pop token) >>= f) := by
  rcases stack with _ | ⟨d, rest⟩ <;> rcases stack' with _ | ⟨d', rest'⟩
  · rfl
  · cases h
  · cases h
  · exact hf d d' rest rest' (List.cons.inj h).1 (List.cons.inj h).2

theorem popTwo_observed (token : Token) (h : stack.observed = stack'.observed)
    {f : Datum × Datum × Stack → Action Stack}
    (hf : ∀ d d' e e' rest rest', d.observed = d'.observed → e.observed = e'.observed →
      Stack.observed rest = Stack.observed rest' →
      Stack.observed <$> f (d, e, rest) = Stack.observed <$> f (d', e', rest')) :
    Stack.observed <$> (Action.ofExcept (stack.popTwo token) >>= f) =
      Stack.observed <$> (Action.ofExcept (stack'.popTwo token) >>= f) := by
  rcases stack with _ | ⟨d, _ | ⟨e, rest⟩⟩ <;> rcases stack' with _ | ⟨d', _ | ⟨e', rest'⟩⟩
  case nil.nil | cons.nil.cons.nil => rfl
  case cons.cons.cons.cons =>
    obtain ⟨hd, hrest⟩ := List.cons.inj h
    exact hf d d' e e' rest rest' hd (List.cons.inj hrest).1 (List.cons.inj hrest).2
  -- Stacks that look the same have the same height.
  all_goals cases (congrArg List.length h)

theorem toText_observed (hd : d.observed = d'.observed) : d.toText = d'.toText :=
  congrArg Prod.fst hd

/-- A text that is taken from two stacks that look the same is the same. -/
theorem popText_observed (token : Token) (h : stack.observed = stack'.observed)
    {f f' : Text × Stack → Action Stack}
    (hf : ∀ text rest rest', Stack.observed rest = Stack.observed rest' →
      Stack.observed <$> f (text, rest) = Stack.observed <$> f' (text, rest')) :
    Stack.observed <$> (Action.ofExcept (stack.popText token) >>= f) =
      Stack.observed <$> (Action.ofExcept (stack'.popText token) >>= f') := by
  rcases stack with _ | ⟨d, rest⟩ <;> rcases stack' with _ | ⟨d', rest'⟩
  · rfl
  · cases h
  · cases h
  · obtain ⟨hd, hrest⟩ := List.cons.inj h
    rw [Stack.popText_cons, Stack.popText_cons, toText_observed hd]
    cases d'.toText with
    | error f => rfl
    | ok text => exact hf text rest rest' hrest

/-- **No function tells stacks apart that look the same.** -/
theorem call_observed (token : Token) (f : Builtin) (h : stack.observed = stack'.observed) :
    Stack.observed <$> f.call token stack = Stack.observed <$> f.call token stack' := by
  cases f with
  | sin =>
    simp only [Builtin.call, Action.ofExcept_bind]
    refine pop_observed token h fun d d' rest rest' hd hrest => ?_
    simp only [sine_observed hd, Action.ofExcept_pure, map_bind, map_pure, observed_cons rfl hrest]
  | decfmt =>
    simp only [Builtin.call, Action.ofExcept_bind]
    refine popText_observed token h fun pattern rest rest' hrest => ?_
    refine pop_observed token hrest fun d d' rest rest' hd hrest => ?_
    simp only [formatted_observed hd, Action.ofExcept_pure, map_bind, map_pure,
      observed_cons rfl hrest]
  | dup =>
    simp only [Builtin.call, Action.ofExcept_bind]
    refine pop_observed token h fun d d' rest rest' hd hrest => ?_
    simp only [Action.ofExcept_pure, map_pure, observed_cons hd (observed_cons hd hrest)]
  | swap =>
    simp only [Builtin.call, Action.ofExcept_bind]
    refine popTwo_observed token h fun d d' e e' rest rest' hd he hrest => ?_
    simp only [Action.ofExcept_pure, map_pure, observed_cons he (observed_cons hd hrest)]
  | setMimeType | persistentDel | temporaryDel =>
    refine popText_observed token h fun text rest rest' hrest => ?_
    simp only [map_bind, map_pure, hrest]
  | persistentSet | temporarySet =>
    refine popText_observed token h fun name rest rest' hrest => ?_
    refine popText_observed token hrest fun value rest rest' hrest => ?_
    simp only [map_bind, map_pure, hrest]
  | paramGet | persistentGet | temporaryGet =>
    refine pop_observed token h fun d d' rest rest' hd hrest => ?_
    refine popText_observed token hrest fun name rest rest' hrest => ?_
    simp only [map_bind, map_pure, observed_cons (orDefault_observed _ hd) hrest]

/-! ## Echoes -/

theorem act_observed (lookup : Echo.Lookup) (token : Token) (h : stack.observed = stack'.observed) :
    Stack.observed <$> Echo.act lookup stack token =
      Stack.observed <$> Echo.act lookup stack' token := by
  cases token with
  | integer | double | text => simp only [Echo.act, map_pure, observed_cons rfl h]
  | loopVariable name =>
    simp only [Echo.act]
    cases lookup name with
    | some v => simp only [map_pure, observed_cons rfl h]
    | none => rfl
  | operator symbol =>
    refine popTwo_observed _ h fun d d' e e' rest rest' hd he hrest => ?_
    simp only [operate_observed symbol he hd, map_bind, map_pure, observed_cons rfl hrest]
  | function name =>
    simp only [Echo.act]
    cases Builtin.ofName? name with
    | some f => exact call_observed _ f h
    | none => simp only [map_pure, observed_cons rfl h]

theorem evaluate_observed (lookup : Echo.Lookup) (tokens : List Token) {stack stack' : Stack}
    (h : stack.observed = stack'.observed) :
    Stack.observed <$> Echo.evaluate lookup stack tokens =
      Stack.observed <$> Echo.evaluate lookup stack' tokens := by
  induction tokens generalizing stack stack' with
  | nil => simp only [Echo.evaluate, List.foldlM_nil, map_pure, h]
  | cons token tokens ih =>
    rw [Expression.evaluate_cons, Expression.evaluate_cons, map_bind, map_bind]
    exact Action.bind_congr_of_map (act_observed lookup token h) fun _ _ => ih

/-- Writing values is writing their texts. -/
theorem writeAll_eq (values : List Datum) :
    Echo.writeAll values =
      (values.map Datum.toText).forM fun text => Action.ofExcept text >>= Sink.write := by
  rw [Echo.writeAll, List.forM_eq_forM, List.forM_eq_forM, List.forM_map]
  rfl

/-- What is written of stacks that look the same is the same. -/
theorem writeAll_observed (h : stack.observed = stack'.observed) :
    Echo.writeAll stack.reverse = Echo.writeAll stack'.reverse := by
  have htexts : stack.map Datum.toText = stack'.map Datum.toText := by
    have := congrArg (List.map Prod.fst) h
    rwa [Stack.observed, Stack.observed, List.map_map, List.map_map] at this
  rw [writeAll_eq, writeAll_eq, List.map_reverse, List.map_reverse, htexts]

/-- **An echo goes on alike** from stacks that look the same: it writes the same, changes the sink
in the same way and fails with the same fault. -/
theorem echo_observed (lookup : Echo.Lookup) (tokens : List Token)
    (h : stack.observed = stack'.observed) :
    (do Echo.writeAll (← Echo.evaluate lookup stack tokens).reverse) =
      (do Echo.writeAll (← Echo.evaluate lookup stack' tokens).reverse) :=
  Action.bind_congr_of_map (evaluate_observed lookup tokens h) fun _ _ => writeAll_observed

end Observed

/-! ## Values in each other's place -/

/-- One value does what the other one does: on both sides of every operator, in the sine, as a
number that is formatted and as a pattern, and anywhere on the stack of an echo, whatever tokens
follow. -/
structure Datum.Interchangeable (d d' : Datum) : Prop where
  left : ∀ (symbol : Text) (e : Datum),
    Number.operate d.operand symbol e.operand = Number.operate d'.operand symbol e.operand
  right : ∀ (symbol : Text) (e : Datum),
    Number.operate e.operand symbol d.operand = Number.operate e.operand symbol d'.operand
  sine : Builtin.sine d = Builtin.sine d'
  formatted : ∀ pattern : Text, Builtin.formatted d pattern = Builtin.formatted d' pattern
  pattern : ∀ value : Datum,
    (do Builtin.formatted value (← d.toText)) = (do Builtin.formatted value (← d'.toText))
  echo : ∀ (lookup : Echo.Lookup) (above below : Stack) (tokens : List Token),
    (do Echo.writeAll (← Echo.evaluate lookup (above ++ d :: below) tokens).reverse) =
      (do Echo.writeAll (← Echo.evaluate lookup (above ++ d' :: below) tokens).reverse)

theorem Datum.interchangeable {d d' : Datum} (h : d.observed = d'.observed) :
    d.Interchangeable d' where
  left symbol _ := operate_observed symbol h rfl
  right symbol _ := operate_observed symbol rfl h
  sine := sine_observed h
  formatted := formatted_observed h
  pattern _ := by rw [toText_observed h]
  echo lookup above below tokens := by
    refine echo_observed lookup tokens ?_
    simp only [Stack.observed, List.map_append, List.map_cons, h]

/-! ## Parameters -/

/-- A store that keeps at least what was put into it last. -/
def Store.HasRoom : Store → Prop
  | bounded r => 1 ≤ r.capacity
  | unbounded _ => True

/-- What was put into a store last is there. -/
theorem Store.HasRoom.read_insert {store : Store} (h : store.HasRoom) (name value : Text) :
    ((store.insert name value).read name).1 = some value := by
  cases store with
  | unbounded entries =>
    show (entries.insert name value).find? name = some value
    rw [Entries.find?_insert, if_pos rfl]
  | bounded r =>
    have hlast (entries : Entries) (hnone : entries.find? name = none) :
        (entries ++ [(name, value)] : Entries).find? name = some value := by
      rw [Entries.find?] at hnone ⊢
      rw [List.lookup_append, hnone, Option.none_or, List.lookup_cons_self]
    have herased : (r.entries.erase name).find? name = none := by
      rw [Entries.find?_erase, if_pos rfl]
    suffices hfind : (r.insert name value).entries.find? name = some value by
      simp only [insert, read, Recency.read, hfind]
    simp only [Recency.insert]
    split
    · next hfull =>
      -- The entry that goes is not the one that was put there, as there are two at least.
      cases hentries : r.entries.erase name with
      | nil =>
        have hcapacity : 1 ≤ r.capacity := h
        rw [hentries] at hfull
        simp only [List.nil_append, List.length_singleton] at hfull
        omega
      | cons e rest =>
        rw [hentries] at herased
        refine hlast rest ?_
        rw [Entries.find?, List.lookup_eq_none_iff] at herased ⊢
        exact fun p hp => herased p (List.mem_cons_of_mem e hp)
    · exact hlast _ herased

namespace ParameterSet

/-- The function that puts a value into a set. Those of the request stay as they are. -/
def setter? : ParameterSet → Option Builtin
  | request => none
  | persistent => some .persistentSet
  | temporary => some .temporarySet

/-- The set has this value under the name. -/
def Holds (set : ParameterSet) (name value : Text) (sink : Sink) : Prop :=
  ∃ sink', set.read name sink = .ok (some value) sink'

theorem holds_persistent {name value : Text} {sink : Sink}
    (h : (sink.persistent.read name).1 = some value) : persistent.Holds name value sink := by
  refine ⟨{ sink with persistent := (sink.persistent.read name).2 }, ?_⟩
  rw [← h]
  rfl

theorem holds_temporary {name value : Text} {sink : Sink}
    (h : sink.temporary? name = some value) :
    temporary.Holds name value sink := by
  refine ⟨sink, ?_⟩
  rw [← h]
  rfl

/-- What is put into a set is there as a text. -/
theorem holds_of_setter {set : ParameterSet} {setter : Builtin} (h : set.setter? = some setter)
    {sink : Sink} (hroom : set = .persistent → sink.persistent.HasRoom) (token : Token)
    {name value : Datum} {key text : Text} (hkey : name.toText = .ok key)
    (htext : value.toText = .ok text) (stack : Stack) :
    ∃ sink', setter.call token (name :: value :: stack) sink = .ok stack sink' ∧
      set.Holds key text sink' := by
  have hcall (f : Text → Text → Sink → Sink) :
      Builtin.changeByTwo f token (name :: value :: stack) sink = .ok stack (f key text sink) := by
    rw [Builtin.changeByTwo, Stack.popText_of_toText hkey]
    show (Action.ofExcept (Stack.popText token (value :: stack)) >>= fun popped =>
      (Action.change (f key popped.1) >>= fun _ => pure popped.2)) sink = _
    rw [Stack.popText_of_toText htext]
    rfl
  cases set with
  | request => cases h
  | persistent =>
    cases h
    exact ⟨sink.setPersistent key text, hcall _,
      holds_persistent ((hroom rfl).read_insert key text)⟩
  | temporary =>
    cases h
    refine ⟨sink.setTemporary key text, hcall _, holds_temporary ?_⟩
    exact (Entries.find?_insert ..).trans (if_pos rfl)

/-- What a set holds is read from it as a text. -/
theorem Holds.call_getter {set : ParameterSet} {name : Datum} {key value : Text} {sink : Sink}
    (h : set.Holds key value sink) (hkey : name.toText = .ok key) (token : Token) (default : Datum)
    (stack : Stack) :
    ∃ sink', set.getter.call token (default :: name :: stack) sink =
      .ok (.text value :: stack) sink' := by
  obtain ⟨sink', hread⟩ := h
  refine ⟨sink', ?_⟩
  rw [ParameterSet.call_getter, hkey]
  exact bind_of_ok hread

end ParameterSet

namespace Number

/-- **Numbers survive their text form.** Every number is read back from its text with its kind, and
so is a constant that bounds a loop. What is put into a parameter set is its text; this comes out of
the set again as long as the set holds it, and does all that the number would do. -/
theorem survives_text :
    (∀ v : Number, (Operand.text v.text).toNumber = .ok v) ∧
    (∀ n : Int64, Engine.bound (.integer n.toInt) = .ok (.integer n)) ∧
    (∀ x : Double, Engine.bound (.double x) = .ok (.double x)) ∧
    (∀ (v : Number) (set : ParameterSet) (setter : Builtin), set.setter? = some setter →
      ∀ (token : Token) (name : Datum) (key : Text) (stack : Stack) (sink : Sink),
        name.toText = .ok key → (set = .persistent → sink.persistent.HasRoom) →
        ∃ sink', setter.call token (name :: .ofNumber v :: stack) sink = .ok stack sink' ∧
          set.Holds key v.text sink') ∧
    (∀ (v : Number) (set : ParameterSet) (token : Token) (default name : Datum) (key : Text)
      (stack : Stack) (sink : Sink), name.toText = .ok key → set.Holds key v.text sink →
        ∃ sink', set.getter.call token (default :: name :: stack) sink =
          .ok (.text v.text :: stack) sink') ∧
    ∀ v : Number, (Datum.text v.text).Interchangeable (.ofNumber v) := by
  refine ⟨fun v => Operand.toNumber_of_ofText? (ofText?_text v), fun n => ?_,
    fun x => (Engine.bound_eq_ok_iff _ _).2 rfl, ?_, ?_, fun v => ?_⟩
  · have hfits := fitsInt64_toInt n
    rw [Engine.bound_eq_ok_iff, Token.constant?, if_neg (Nat.not_lt.2 (size_le_of_fitsInt64 hfits)),
      if_pos hfits, Int64.ofInt_toInt]
  · intro v set setter hsetter token name key stack sink hkey hroom
    exact ParameterSet.holds_of_setter hsetter hroom token hkey (Datum.toText_ofNumber v) stack
  · intro v set token default name key stack sink hkey hholds
    exact hholds.call_getter hkey token default stack
  · exact Datum.interchangeable (Datum.observed_ofNumber v).symm

/-- A negative zero goes through a store with room for one entry. -/
theorem survives_text_negative_zero :
    ParameterSet.persistent.setter? = some .persistentSet ∧
    Store.HasRoom (.bounded ⟨1, [("a", "b")]⟩) ∧
    ∃ sink sink', Builtin.persistentSet.call (.function "pparamSet")
        [.text "x", .double (.ofRank true 0)] (.fresh .utf8 true [] (.bounded ⟨1, [("a", "b")]⟩)) =
          .ok [] sink ∧
      ParameterSet.persistent.Holds "x" "-0.0" sink ∧
      Builtin.persistentGet.call (.function "pparamGet") [.integer 0, .text "x"] sink =
        .ok [.text "-0.0"] sink' ∧
      Builtin.sine (.text "-0.0") = Builtin.sine (.double (.ofRank true 0)) := by
  have htext : (Number.double (.ofRank true 0)).text = "-0.0" := by decide
  have hroom : Store.HasRoom (.bounded ⟨1, [("a", "b")]⟩) := Int.le_refl 1
  obtain ⟨-, -, -, hset, hget, hsame⟩ := survives_text
  obtain ⟨sink, hcall, hholds⟩ := hset (.double (.ofRank true 0)) .persistent .persistentSet rfl
    (.function "pparamSet") (.text "x") "x" []
      (.fresh .utf8 true [] (.bounded ⟨1, [("a", "b")]⟩)) rfl
    fun _ => hroom
  obtain ⟨sink', hread⟩ := hget (.double (.ofRank true 0)) .persistent (.function "pparamGet")
    (.integer 0) (.text "x") "x" [] sink rfl hholds
  have hsine := (hsame (.double (.ofRank true 0))).sine
  rw [htext] at hholds hread hsine
  exact ⟨rfl, hroom, sink, sink', hcall, hholds, hread, hsine⟩

end Number

end TagTemplate
