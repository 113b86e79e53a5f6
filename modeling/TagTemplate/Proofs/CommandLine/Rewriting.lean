/-
What the command line does with a script that it has rewritten: the canonical text of the
script is read from a file again, with its line breaks unified.

Reading back undoes writing for everything that stands in a tag: there a return is written
as an escape. In plain text it is written as it is, and is a line feed when read.
`rewriting` says that nothing else is lost: the tree that is read is the one that was
written, with the line breaks of its texts unified, and so it is the same tree exactly if no
text holds a return.
-/
import TagTemplate.CommandLine.Basic
import TagTemplate.Proofs.Syntax.Characters
import TagTemplate.Proofs.Syntax.Image

namespace TagTemplate

/-! ## Unified line breaks -/

namespace Text

variable {c : CodePoint} {cs ds : List CodePoint}

theorem unifyChars_cons (h : c ≠ '\r') : unifyChars (c :: cs) = c :: unifyChars cs := by
  simp [unifyChars, h]

theorem unifyChars_return (h : cs.head? ≠ some ↑ '\n') :
    unifyChars (↑ '\r' :: cs) = ↑ '\n' :: unifyChars cs := by
  cases cs with
  | nil => rfl
  | cons c cs =>
    have hc : c ≠ '\n' := by simpa using h
    simp [unifyChars, hc]

theorem no_return_unifyChars (cs : List CodePoint) : ↑ '\r' ∉ unifyChars cs := by
  fun_induction unifyChars cs with grind

theorem mem_unifyChars (h : c ∈ unifyChars cs) : c ∈ cs ∨ c = '\n' := by
  fun_induction unifyChars cs with grind

/-- Characters without a return stay, whatever follows them. -/
theorem unifyChars_append_of_no_return (h : ↑ '\r' ∉ cs) :
    unifyChars (cs ++ ds) = cs ++ unifyChars ds := by
  induction cs with
  | nil => rfl
  | cons c cs ih =>
    simp only [List.mem_cons, not_or] at h
    rw [List.cons_append, unifyChars_cons (Ne.symm h.1), ih h.2, List.cons_append]

/-- A return at the end joins nothing but a line feed. -/
theorem unifyChars_append (h : ds.head? ≠ some ↑ '\n') :
    unifyChars (cs ++ ds) = unifyChars cs ++ unifyChars ds := by
  fun_induction unifyChars cs with
  | case1 => rfl
  | case2 cs ih => exact congrArg (↑ '\n' :: ·) ih
  | case3 cs hnext ih =>
    have hhead : (cs ++ ds).head? ≠ some ↑ '\n' := by
      cases cs with
      | nil => exact h
      | cons c cs =>
        have hc : c ≠ '\n' := by
          rintro rfl
          exact hnext cs rfl
        simpa using hc
    rw [List.cons_append, unifyChars_return hhead, ih, List.cons_append]
  | case4 c cs _ hne ih => rw [List.cons_append, unifyChars_cons hne, ih, List.cons_append]

theorem OnlyCharacters.unifyLineBreaks {s : Text} (hs : s.OnlyCharacters) :
    s.unifyLineBreaks.OnlyCharacters := fun c hc =>
  (mem_unifyChars hc).elim (hs c) fun hfeed => ⟨'\n', hfeed⟩

theorem unifyLineBreaks_eq_empty_iff (s : Text) : unifyLineBreaks s = "" ↔ s = "" := by
  rw [unifyLineBreaks, ← Text.toList_inj, ← Text.toList_inj, Text.toList_ofList]
  fun_cases unifyChars s.toList with simp_all

theorem unifyLineBreaks_eq_self_iff (s : Text) : unifyLineBreaks s = s ↔ ↑ '\r' ∉ s.toList := by
  constructor
  · intro h
    rw [← h, unifyLineBreaks, Text.toList_ofList]
    exact no_return_unifyChars _
  · intro h
    have hsame : unifyChars (s.toList ++ []) = s.toList ++ unifyChars [] :=
      unifyChars_append_of_no_return h
    rw [unifyChars, List.append_nil] at hsame
    rw [unifyLineBreaks, hsame, Text.ofList_toList]

end Text

/-! ## Texts of a tree -/

namespace Node

mutual

/-- The stretches of plain text. -/
def texts : Node → List Text
  | document children => textsAll children
  | text content => [content]
  | echo _ => []
  | loop _ children => textsAll children

def textsAll : List Node → List Text
  | [] => []
  | node :: nodes => texts node ++ textsAll nodes

end

mutual

/-- The tree with another text in place of each stretch of plain text. -/
def mapTexts (f : Text → Text) : Node → Node
  | document children => document (mapTextsAll f children)
  | text content => text (f content)
  | echo tokens => echo tokens
  | loop header children => loop header (mapTextsAll f children)

def mapTextsAll (f : Text → Text) : List Node → List Node
  | [] => []
  | node :: nodes => mapTexts f node :: mapTextsAll f nodes

end

mutual

theorem mapTexts_eq_self_iff (f : Text → Text) :
    ∀ node : Node, node.mapTexts f = node ↔ ∀ s ∈ node.texts, f s = s
  | document children => by
    simp only [mapTexts, texts, document.injEq, mapTextsAll_eq_self_iff f children]
  | text content => by simp [mapTexts, texts]
  | echo tokens => by simp [mapTexts, texts]
  | loop header children => by
    simp only [mapTexts, texts, loop.injEq, true_and, mapTextsAll_eq_self_iff f children]

theorem mapTextsAll_eq_self_iff (f : Text → Text) :
    ∀ nodes : List Node, mapTextsAll f nodes = nodes ↔ ∀ s ∈ textsAll nodes, f s = s
  | [] => by simp [mapTextsAll, textsAll]
  | node :: nodes => by
    simp only [mapTextsAll, textsAll, List.cons.injEq, mapTexts_eq_self_iff f node,
      mapTextsAll_eq_self_iff f nodes, List.forall_mem_append]

end

theorem isText_mapTexts (f : Text → Text) (node : Node) :
    (node.mapTexts f).isText = node.isText := by
  cases node <;> simp only [mapTexts, isText]

theorem startsWithText_mapTextsAll (f : Text → Text) (nodes : List Node) :
    startsWithText (mapTextsAll f nodes) = startsWithText nodes := by
  cases nodes with
  | nil => rfl
  | cons node nodes => simpa [startsWithText, mapTextsAll] using isText_mapTexts f node

/-- A change of texts that keeps them texts of a template. -/
def KeepsTexts (f : Text → Text) : Prop :=
  ∀ content, (text content).IsCanonical → (text (f content)).IsCanonical

mutual

theorem IsCanonical.mapTexts {f : Text → Text} (hf : KeepsTexts f) :
    ∀ {node : Node}, node.IsCanonical → (node.mapTexts f).IsCanonical
  | document _, h => h.elim
  | text content, h => hf content h
  | echo _, h => h
  | loop _ _, h => ⟨h.1, AreCanonical.mapTextsAll hf h.2⟩

theorem AreCanonical.mapTextsAll {f : Text → Text} (hf : KeepsTexts f) :
    ∀ {nodes : List Node}, AreCanonical nodes → AreCanonical (mapTextsAll f nodes)
  | [], _ => trivial
  | node :: nodes, h => by
    obtain ⟨hnode, hapart, hnodes⟩ := h
    refine ⟨hnode.mapTexts hf, ?_, AreCanonical.mapTextsAll hf hnodes⟩
    rwa [isText_mapTexts, startsWithText_mapTextsAll]

end

theorem IsCanonicalDocument.mapTexts {f : Text → Text} (hf : KeepsTexts f) {doc : Node}
    (h : doc.IsCanonicalDocument) : (doc.mapTexts f).IsCanonicalDocument := by
  cases doc with
  | document children => exact AreCanonical.mapTextsAll hf h
  | text | echo | loop => exact h.elim

theorem keepsTexts_unifyLineBreaks : KeepsTexts Text.unifyLineBreaks := by
  intro content ⟨hne, hallowed⟩
  refine ⟨?_, fun c hc => ?_⟩
  · rw [Ne, Text.unifyLineBreaks_eq_empty_iff]
    exact hne
  · rw [Text.unifyLineBreaks, Text.toList_ofList] at hc
    rcases Text.mem_unifyChars hc with hc | rfl
    · exact hallowed c hc
    · decide

end Node

/-! ## Line breaks of canonical texts -/

theorem no_return_flatMap_canonical {tokens : List Token} (h : ∀ t ∈ tokens, t.IsCanonical) :
    ↑ '\r' ∉ tokens.flatMap fun t => ↑ ' ' :: t.canonical.toList := fun hc =>
  (forall_mem_flatMap_canonical h _ hc).2 rfl

theorem Loop.no_return_canonical {header : Loop} (h : header.IsCanonical) :
    ↑ '\r' ∉ header.canonical.toList := fun hc => (isLine_joined h _ hc).2 rfl

namespace Node

theorem no_return_echoText {tokens : List Token} (h : ∀ t ∈ tokens, t.IsCanonical) :
    ↑ '\r' ∉ (echoText tokens).toList := by
  rw [echoText_toList]
  simpa using no_return_flatMap_canonical h

theorem canonical_loop_toList (header : Loop) (children : List Node) :
    (loop header children).canonical.toList =
      ("\x7b$ FOR " ++ header.canonical ++ " $\x7d").toList ++
        (canonicalAll children).toList ++ ("\x7b$END$\x7d" : Text).toList := by
  rw [canonical, Text.toList_append, Text.toList_append]

/-- The canonical text of a tag begins with its brace. -/
theorem head?_canonical {node : Node} (h : node.IsCanonical) (htext : node.isText = false)
    (cs : List CodePoint) : (node.canonical.toList ++ cs).head? = some ↑ '\x7b' := by
  cases node with
  | document => exact h.elim
  | text => cases htext
  | echo tokens =>
    rw [canonical, echoText_toList]
    rfl
  | loop header children => simp [canonical, Text.toList_append]

theorem head?_canonicalAll {nodes : List Node} (h : AreCanonical nodes)
    (htext : startsWithText nodes = false) {cs : List CodePoint} (hcs : cs.head? ≠ some ↑ '\n') :
    ((canonicalAll nodes).toList ++ cs).head? ≠ some ↑ '\n' := by
  cases nodes with
  | nil => exact hcs
  | cons node nodes =>
    rw [canonicalAll, Text.toList_append, List.append_assoc,
      head?_canonical h.1 (by simpa [startsWithText] using htext)]
    decide

mutual

theorem unifyChars_canonical : ∀ {node : Node}, node.IsCanonical → ∀ {cs : List CodePoint},
    (node.isText = true → cs.head? ≠ some ↑ '\n') →
    Text.unifyChars (node.canonical.toList ++ cs) =
      (node.mapTexts Text.unifyLineBreaks).canonical.toList ++ Text.unifyChars cs
  | document _, h, _, _ => h.elim
  | text content, _, cs, hcs => by
    rw [canonical, mapTexts, canonical, Text.unifyChars_append (hcs rfl), Text.unifyLineBreaks,
      Text.toList_ofList]
  | echo tokens, h, cs, _ => by
    rw [canonical, mapTexts, canonical, Text.unifyChars_append_of_no_return (no_return_echoText h)]
  | loop header children, h, cs, _ => by
    have hopen : ↑ '\r' ∉ ("\x7b$ FOR " ++ header.canonical ++ " $\x7d").toList := by
      simpa [Text.toList_append] using Loop.no_return_canonical h.1
    have hclose : ↑ '\r' ∉ ("\x7b$END$\x7d" : Text).toList := by decide
    simp only [mapTexts, canonical_loop_toList, List.append_assoc]
    rw [Text.unifyChars_append_of_no_return hopen, unifyChars_canonicalAll h.2 (by simp),
      Text.unifyChars_append_of_no_return hclose]

theorem unifyChars_canonicalAll : ∀ {nodes : List Node}, AreCanonical nodes →
    ∀ {cs : List CodePoint},
    cs.head? ≠ some ↑ '\n' →
    Text.unifyChars ((canonicalAll nodes).toList ++ cs) =
      (canonicalAll (mapTextsAll Text.unifyLineBreaks nodes)).toList ++ Text.unifyChars cs
  | [], _, _, _ => rfl
  | node :: nodes, h, cs, hcs => by
    obtain ⟨hnode, hapart, hnodes⟩ := h
    simp only [canonicalAll, mapTextsAll, Text.toList_append, List.append_assoc]
    rw [unifyChars_canonical hnode fun htext => head?_canonicalAll hnodes (hapart htext) hcs,
      unifyChars_canonicalAll hnodes hcs]

end

/-- What is read of the canonical text of a template with its line breaks unified. -/
theorem parse_unifyLineBreaks_canonical {doc : Node} (h : doc.IsCanonicalDocument) :
    parse (Text.unifyLineBreaks doc.canonical) = .ok (doc.mapTexts Text.unifyLineBreaks) := by
  have hdoc := IsCanonicalDocument.mapTexts keepsTexts_unifyLineBreaks h
  have hread :
      Text.unifyLineBreaks doc.canonical = (doc.mapTexts Text.unifyLineBreaks).canonical := by
    cases doc with
    | document children =>
      have hchars : Text.unifyChars ((canonicalAll children).toList ++ []) = _ :=
        unifyChars_canonicalAll h (by simp)
      rw [List.append_nil, Text.unifyChars, List.append_nil] at hchars
      rw [Text.unifyLineBreaks, canonical, hchars, Text.ofList_toList]
      rfl
    | text | echo | loop => exact h.elim
  rw [hread]
  exact parse_canonical_eq hdoc

end Node

/-! ## Commands -/

namespace CommandLine

theorem lines_singleton (s : Text) : lines [s] = s ++ "\n" := Text.append_empty _

/-- What is printed tells the text. -/
theorem print_eq_ok_iff {s : Text} {characters : String} :
    print s = .ok (.printed characters) ↔ s = characters := by
  rw [← Text.string?_eq_some_iff, print]
  cases s.string? with
  | none => simp
  | some characters' =>
    simp only [Except.ok.injEq, Option.some.injEq]
    constructor
    · intro h
      have hbytes : characters'.toUTF8 = characters.toUTF8 := congrArg Outcome.stdout h
      exact String.toByteArray_inj.1 hbytes
    · rintro rfl
      rfl

theorem run_of_parse {text : String} {node : Node}
    (h : Node.parse (Text.unifyLineBreaks text) = .ok node) (limit : Nat) (a : Arguments)
    (r : Request) : run limit a r (.file text) =
      if a.has .tree then print (lines node.outline)
      else if a.has .canonical then print (lines [node.canonical])
      else .ok (execute limit r (a.has .dumpContext) node) := by
  have hread : Node.parse (Script.file text).text = .ok node := h
  rw [run, hread]

/-- **A rewritten script does what the script does, but for returns in its texts.** What a
command prints that rewrites a script is, without the line feed at its end, a script again.
The tree that is read from it is the one of the first script with the line breaks of its
texts unified. So all commands come to the same on both scripts, whatever they ask for and
whatever their parameters, if and only if no text of the first one holds a return. -/
theorem rewriting {text : String} {doc : Node}
    (hparse : Node.parse (Text.unifyLineBreaks text) = .ok doc) {rewrite : Arguments}
    (hrewrite : rewrite.has .canonical = true) (htree : rewrite.has .tree = false) (limit₀ : Nat)
    (r₀ : Request) :
    ∃ script : String, run limit₀ rewrite r₀ (.file text) = .ok (.printed (script ++ "\n")) ∧
      Node.parse (Text.unifyLineBreaks script) = .ok (doc.mapTexts Text.unifyLineBreaks) ∧
      ((∀ limit a r, run limit a r (.file script) = run limit a r (.file text)) ↔
        ∀ s ∈ doc.texts, ↑ '\r' ∉ s.toList) := by
  have hdoc := Node.isCanonicalDocument_of_parse hparse
  have hread := Node.parse_unifyLineBreaks_canonical hdoc
  have hprint : ∀ {script : String} {node : Node},
      Node.parse (Text.unifyLineBreaks script) = .ok node →
      run limit₀ rewrite r₀ (.file script) = print (node.canonical ++ "\n") := by
    intro script node h
    rw [run_of_parse h, if_neg (by simp [htree]), if_pos hrewrite, lines_singleton]
  -- Without surrogates in the script the canonical text can be printed.
  obtain ⟨script, hscript⟩ := (Node.onlyCharacters_canonical
    (Text.onlyCharacters_ofString text).unifyLineBreaks hparse).exists_string
  have hlines : doc.canonical ++ "\n" = ↑(script ++ "\n") := by
    rw [hscript, Text.ofString_append]
  have hprinted : run limit₀ rewrite r₀ (.file text) = .ok (.printed (script ++ "\n")) := by
    rw [hprint hparse, print_eq_ok_iff, hlines]
  rw [hscript] at hread
  refine ⟨script, hprinted, hread, ?_⟩
  simp only [← Text.unifyLineBreaks_eq_self_iff, ← Node.mapTexts_eq_self_iff]
  constructor
  · -- The rewriting itself tells trees apart: no two of them have the same canonical text.
    intro h
    have hsame := h limit₀ rewrite r₀
    rw [hprinted, hprint hread, print_eq_ok_iff, ← hlines] at hsame
    have hcanonical := (Text.append_left_inj _).1 hsame
    have hmapped := Node.parse_canonical_eq
      (Node.IsCanonicalDocument.mapTexts Node.keepsTexts_unifyLineBreaks hdoc)
    rw [hcanonical, Node.parse_canonical_eq hdoc] at hmapped
    exact (Except.ok.inj hmapped).symm
  · intro h limit a r
    rw [h] at hread
    rw [run_of_parse hread, run_of_parse hparse]

/-- A return in a string constant and one that ends a line of the file: both scripts do the
same. -/
theorem rewriting_string :
    let text := "a\r\n\x7b$= \"b\\r\" $\x7d"
    let doc : Node := .document [.text "a\n", .echo [.text "b\r"]]
    let rewrite : Arguments := ⟨some "script", [], [], [(.canonical, "")]⟩
    Arguments.ofWords ["-r", "script"] = .ok rewrite ∧
      Node.parse (Text.unifyLineBreaks text) = .ok doc ∧ rewrite.has .canonical = true ∧
      rewrite.has .tree = false ∧
      ∃ script : String, run 0 rewrite ⟨[], []⟩ (.file text) = .ok (.printed (script ++ "\n")) ∧
        ∀ limit a r, run limit a r (.file script) = run limit a r (.file text) := by
  intro text doc rewrite
  have hparse : Node.parse (Text.unifyLineBreaks text) = .ok doc := by decide +kernel
  have hcanonical : rewrite.has .canonical = true := by decide
  have htree : rewrite.has .tree = false := by decide
  obtain ⟨script, hprint, -, hsame⟩ := rewriting hparse hcanonical htree 0 ⟨[], []⟩
  exact ⟨rfl, hparse, hcanonical, htree, script, hprint, hsame.2 (by decide +kernel)⟩

/-- A return in a text is a line feed when the rewritten script is run. -/
theorem rewriting_loses_return :
    let text := "a\\rb"
    let script := "a\rb"
    let rewrite : Arguments := ⟨some "script", [], [], [(.canonical, "")]⟩
    let plain : Arguments := ⟨some "script", [], [], []⟩
    run 0 rewrite ⟨[], []⟩ (.file text) = .ok (.printed (script ++ "\n")) ∧
      run 0 plain ⟨[], []⟩ (.file text) = .ok ⟨0, "a\rb".toUTF8, "", true⟩ ∧
      run 0 plain ⟨[], []⟩ (.file script) = .ok ⟨0, "a\nb".toUTF8, "", true⟩ ∧
      run 0 plain ⟨[], []⟩ (.file script) ≠ run 0 plain ⟨[], []⟩ (.file text) := by
  intro text script rewrite plain
  have htext : Node.parse (Text.unifyLineBreaks text) = .ok (.document [.text "a\rb"]) := by
    decide +kernel
  have hscript : Node.parse (Text.unifyLineBreaks script) = .ok (.document [.text "a\nb"]) := by
    decide +kernel
  have hrewrite : run 0 rewrite ⟨[], []⟩ (.file text) = .ok (.printed (script ++ "\n")) := by
    rw [run_of_parse htext]
    rfl
  have hreturn : run 0 plain ⟨[], []⟩ (.file text) = .ok ⟨0, "a\rb".toUTF8, "", true⟩ := by
    rw [run_of_parse htext]
    rfl
  have hfeed : run 0 plain ⟨[], []⟩ (.file script) = .ok ⟨0, "a\nb".toUTF8, "", true⟩ := by
    rw [run_of_parse hscript]
    rfl
  refine ⟨hrewrite, hreturn, hfeed, fun h => ?_⟩
  rw [hreturn, hfeed] at h
  have hbytes := congrArg Outcome.stdout (Except.ok.inj h)
  exact absurd hbytes (by decide)

end CommandLine

end TagTemplate
