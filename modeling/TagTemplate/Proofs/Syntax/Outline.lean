/-
The outline of a template tells the template. It has one line for every node, parents before their
children and children in their order, and no line has a break in it. From the lines the tree can be
rebuilt: each line tells what kind of node it is for, all that the node itself consists of, and how
many children follow.
-/
import Mathlib.Data.List.Forall2
import TagTemplate.CommandLine.Basic
import TagTemplate.Proofs.Syntax.Image

namespace TagTemplate

/-! ## Places in a tree -/

namespace Node

def children : Node → List Node
  | document children | loop _ children => children
  | text _ | echo _ => []

/-- The node that a path leads to: each of its numbers is that of a child. -/
def at? : Node → List Nat → Option Node
  | node, [] => some node
  | node, i :: path => node.children[i]?.bind (at? · path)

mutual

/-- The paths to all nodes of a tree, parents first. -/
def paths : Node → List (List Nat)
  | document children | loop _ children => [] :: pathsAll 0 children
  | text _ | echo _ => [[]]

/-- The paths to nodes that are numbered from `first` on, and to those below them. -/
def pathsAll (first : Nat) : List Node → List (List Nat)
  | [] => []
  | node :: nodes => (paths node).map (first :: ·) ++ pathsAll (first + 1) nodes

end

theorem mem_pathsAll {nodes : List Node} {first : Nat} {path : List Nat} :
    path ∈ pathsAll first nodes ↔
      ∃ i node rest, nodes[i]? = some node ∧ rest ∈ paths node ∧ path = (first + i) :: rest := by
  induction nodes generalizing first with
  | nil => simp [pathsAll]
  | cons node nodes ih =>
    rw [pathsAll, List.mem_append, List.mem_map, ih]
    constructor
    · rintro (⟨rest, hrest, rfl⟩ | ⟨i, child, rest, hchild, hrest, rfl⟩)
      · exact ⟨0, node, rest, rfl, hrest, rfl⟩
      · exact ⟨i + 1, child, rest, hchild, hrest, by rw [Nat.add_assoc, Nat.add_comm 1]⟩
    · rintro ⟨i, child, rest, hchild, hrest, rfl⟩
      cases i with
      | zero =>
        cases hchild
        exact .inl ⟨rest, hrest, rfl⟩
      | succ i => exact .inr ⟨i, child, rest, hchild, hrest, by rw [Nat.add_assoc, Nat.add_comm 1]⟩

theorem paths_eq (node : Node) : node.paths = [] :: pathsAll 0 node.children := by
  cases node <;> rw [paths] <;> rfl

/-- Every path leads to a node, and every node has its path. -/
theorem mem_paths_iff (node : Node) (path : List Nat) : path ∈ node.paths ↔
    (node.at? path).isSome = true := by
  induction path generalizing node with
  | nil => simp [paths_eq, at?]
  | cons i path ih =>
    rw [paths_eq, List.mem_cons, mem_pathsAll, at?]
    simp only [reduceCtorEq, false_or, Nat.zero_add, List.cons.injEq]
    cases hchild : node.children[i]? with
    | none =>
      simp only [Option.bind_none, Option.isSome_none, Bool.false_eq_true, iff_false]
      rintro ⟨j, child, rest, hj, -, rfl, rfl⟩
      rw [hchild] at hj
      cases hj
    | some child =>
      rw [Option.bind_some, ← ih child]
      constructor
      · rintro ⟨j, child', rest, hj, hrest, rfl, rfl⟩
        rw [hchild] at hj
        cases hj
        exact hrest
      · exact fun hpath => ⟨i, child, path, hchild, hpath, rfl, rfl⟩

mutual

/-- Parents come before their children, and children in their order. -/
theorem sorted_paths : ∀ node : Node, node.paths.Pairwise (· < ·)
  | document children | loop _ children => by
    rw [paths]
    refine List.pairwise_cons.2 ⟨fun path hpath => ?_, sorted_pathsAll 0 children⟩
    obtain ⟨i, child, rest, -, -, rfl⟩ := mem_pathsAll.1 hpath
    exact List.nil_lt_cons ..
  | text _ | echo _ => by
    rw [paths]
    exact List.pairwise_singleton ..

theorem sorted_pathsAll (first : Nat) : ∀ nodes : List Node, (pathsAll first nodes).Pairwise (· < ·)
  | [] => by
    rw [pathsAll]
    exact .nil
  | node :: nodes => by
    rw [pathsAll]
    refine List.pairwise_append.2 ⟨?_, sorted_pathsAll (first + 1) nodes, ?_⟩
    · exact List.pairwise_map.2 ((sorted_paths node).imp fun h =>
        List.cons_lt_cons_iff.2 (.inr ⟨rfl, h⟩))
    · intro path hpath path' hpath'
      obtain ⟨rest, -, rfl⟩ := List.mem_map.1 hpath
      obtain ⟨i, child, rest', -, -, rfl⟩ := mem_pathsAll.1 hpath'
      exact List.cons_lt_cons_iff.2 (.inl (by omega))

end

/-! ## One line for each node -/

/-- A line of an outline that is the one for the node at a path. -/
def Shows (node : Node) (depth : Nat) (path : List Nat) (line : Text) : Prop :=
  ∃ found, node.at? path = some found ∧ line = indented (depth + path.length) found.summary

/-- The same for several nodes. -/
def ShowsAll (nodes : List Node) (first depth : Nat) (path : List Nat) (line : Text) : Prop :=
  ∃ i node rest, nodes[i]? = some node ∧ path = (first + i) :: rest ∧ node.Shows depth rest line

theorem shows_self (node : Node) (depth : Nat) : node.Shows depth []
    (indented depth node.summary) :=
  ⟨node, rfl, rfl⟩

theorem ShowsAll.shows (node : Node) {depth : Nat} {path : List Nat} {line : Text}
    (h : ShowsAll node.children 0 (depth + 1) path line) : node.Shows depth path line := by
  obtain ⟨i, child, rest, hchild, rfl, found, hfound, rfl⟩ := h
  refine ⟨found, ?_, ?_⟩
  · rw [at?, Nat.zero_add, hchild]
    exact hfound
  · rw [List.length_cons, Nat.add_assoc, Nat.add_comm 1]

mutual

/-- The lines of an outline are those for the nodes at the paths of the tree. -/
theorem shows_outlineAt (depth : Nat) :
    ∀ node : Node, List.Forall₂ (node.Shows depth) node.paths (outlineAt depth node)
  | document children => by
    rw [paths, outlineAt]
    exact .cons (shows_self ..) ((shows_outlineAll (depth + 1) 0 children).imp fun _ _ =>
      ShowsAll.shows (document children))
  | loop header children => by
    rw [paths, outlineAt]
    exact .cons (shows_self ..) ((shows_outlineAll (depth + 1) 0 children).imp fun _ _ =>
      ShowsAll.shows (loop header children))
  | text content => by
    rw [paths, outlineAt]
    exact .cons (shows_self ..) .nil
  | echo tokens => by
    rw [paths, outlineAt]
    exact .cons (shows_self ..) .nil

theorem shows_outlineAll (depth first : Nat) :
    ∀ nodes : List Node, List.Forall₂ (ShowsAll nodes first depth) (pathsAll first nodes)
      (outlineAll depth nodes)
  | [] => by
    rw [pathsAll, outlineAll]
    exact .nil
  | node :: nodes => by
    rw [pathsAll, outlineAll]
    refine List.rel_append ?_ ?_
    · exact List.forall₂_map_left_iff.2 ((shows_outlineAt depth node).imp fun path line h =>
        ⟨0, node, path, rfl, rfl, h⟩)
    · refine (shows_outlineAll depth (first + 1) nodes).imp fun path line h => ?_
      obtain ⟨i, child, rest, hchild, rfl, hshows⟩ := h
      exact ⟨i + 1, child, rest, hchild, by rw [Nat.add_assoc, Nat.add_comm 1], hshows⟩

end

/-! ## What a line tells -/

theorem toList_countText (n : Nat) :
    (countText n).toList =
      ↑ '[' :: ((Nat.toDigits 10 n).map .scalar ++ ([']'] : List CodePoint)) := by
  simp only [countText, Text.toList_append, Nat.toString_eq_repr, Nat.repr, Text.toList_ofString,
    String.toList_ofList]
  rfl

theorem isLine_countText (n : Nat) : Text.IsLine (countText n) := by
  intro c hc
  rw [toList_countText, List.mem_cons, List.mem_append, List.mem_singleton] at hc
  rcases hc with rfl | hc | rfl
  · decide
  · obtain ⟨d, hd, rfl⟩ := List.mem_map.1 hc
    have hdigit := Number.allDigits_toDigits n d hd
    constructor <;> rintro ⟨⟩ <;> cases hdigit
  · decide

/-- A character that does not come before tells where it stands. -/
theorem eq_of_append_cons {c : CodePoint} {cs cs' ds ds' : List CodePoint} (hcs : c ∉ cs)
    (hcs' : c ∉ cs')
    (h : cs ++ c :: ds = cs' ++ c :: ds') : cs = cs' ∧ ds = ds' := by
  rcases List.append_eq_append_iff.1 h with ⟨es, rfl, hrest⟩ | ⟨es, rfl, hrest⟩
  · cases es with
    | nil => exact ⟨(List.append_nil cs).symm, (List.cons.inj hrest).2⟩
    | cons e es => simp [(List.cons.inj hrest).1] at hcs'
  · cases es with
    | nil => exact ⟨List.append_nil cs', (List.cons.inj hrest).2.symm⟩
    | cons e es => simp [(List.cons.inj hrest).1] at hcs

/-- So does one that does not come again. -/
theorem eq_of_append_cons_last {c : CodePoint} {cs cs' ds ds' : List CodePoint} (hds : c ∉ ds)
    (hds' : c ∉ ds')
    (h : cs ++ c :: ds = cs' ++ c :: ds') : cs = cs' ∧ ds = ds' := by
  have hreverse := congrArg List.reverse h
  simp only [List.reverse_append, List.reverse_cons, List.append_assoc,
    List.singleton_append] at hreverse
  obtain ⟨hbehind, hbefore⟩ := eq_of_append_cons (by simpa using hds) (by simpa using hds') hreverse
  exact ⟨List.reverse_inj.1 hbefore, List.reverse_inj.1 hbehind⟩

/-- A count at the end of a line, and what stands before it. -/
theorem append_countText_inj {s t : Text} {m n : Nat} (h : s ++ countText m = t ++ countText n) :
    s = t ∧ m = n := by
  have hbracket : ∀ k,
      ↑ '[' ∉ (Nat.toDigits 10 k).map CodePoint.scalar ++ ([']'] : List CodePoint) := by
    intro k hk
    rw [List.mem_append, List.mem_singleton] at hk
    rcases hk with hk | hk
    · obtain ⟨d, hd, hbracket⟩ := List.mem_map.1 hk
      cases hbracket
      exact absurd (Number.allDigits_toDigits k _ hd) (by decide)
    · cases hk
  have hchars := congrArg Text.toList h
  rw [Text.toList_append, Text.toList_append, toList_countText, toList_countText] at hchars
  obtain ⟨hline, hcount⟩ := eq_of_append_cons_last (hbracket m) (hbracket n) hchars
  refine ⟨Text.toList_inj.1 hline, ?_⟩
  have hdigits : Nat.toDigits 10 m = Nat.toDigits 10 n :=
    List.map_injective_iff.2 (fun _ _ => CodePoint.scalar.inj) (List.append_cancel_right hcount)
  rw [← Number.ofDigits_toDigits m, hdigits, Number.ofDigits_toDigits]

theorem joined_ne_empty {tokens : List Token} (h : ∀ t ∈ tokens, t.IsCanonical)
    (hne : tokens ≠ []) :
    Token.joined tokens ≠ "" := by
  intro hempty
  obtain ⟨t, rest, rfl⟩ := List.exists_cons_of_ne_nil hne
  have hchars := joined_toList hne
  rw [hempty, List.flatMap_cons, List.cons_append] at hchars
  have hnil := (List.append_eq_nil_iff.1 (List.cons.inj hchars).2.symm).1
  exact Token.canonical_ne_nil (h t (List.mem_cons_self ..)) hnil

/-- Canonical tokens are told by how they are written one after another: in an echo they would be
read again. -/
theorem joined_inj {tokens tokens' : List Token} (h : ∀ t ∈ tokens, t.IsCanonical)
    (h' : ∀ t ∈ tokens', t.IsCanonical) (heq : Token.joined tokens = Token.joined tokens') :
    tokens = tokens' := by
  by_cases hne : tokens = []
  · subst hne
    by_contra hne'
    exact joined_ne_empty h' (Ne.symm hne') heq.symm
  by_cases hne' : tokens' = []
  · subst hne'
    exact absurd heq (joined_ne_empty h hne)
  have htext : echoText tokens = echoText tokens' := by
    rw [← Text.toList_inj, echoText_toList,
      echoText_toList, ← joined_toList hne, ← joined_toList hne', heq]
  have hread : ∀ {ts : List Token}, (∀ t ∈ ts, t.IsCanonical) →
      parse (echoText ts) = .ok (document [echo ts]) := by
    intro ts hts
    have hcanonical : (document [echo ts]).canonical = echoText ts := by
      simp only [canonical, canonicalAll, Text.append_empty]
    rw [← hcanonical]
    exact parse_canonical_eq ⟨hts, fun _ => rfl, trivial⟩
  have hsame := (hread h).symm.trans (htext ▸ hread h')
  simpa using hsame

theorem isLine_summary {node : Node} (h : node.IsCanonical) : Text.IsLine node.summary := by
  have hclosed : ∀ {s : Text}, Text.IsLine s → Text.IsLine (s ++ ")") := fun hs =>
    hs.append (by decide)
  cases node with
  | document => exact h.elim
  | text content => exact hclosed (.append (by decide) (Text.isLine_quoted content))
  | echo tokens => exact hclosed (.append (by decide) (isLine_joined h))
  | loop header children =>
    exact (hclosed (.append (by decide) (isLine_joined h.1))).append (isLine_countText _)

theorem isLine_indented {line : Text} (h : Text.IsLine line) (depth : Nat) :
    Text.IsLine (indented depth line) := by
  refine .append (fun c hc => ?_) h
  rw [Text.toList_ofList] at hc
  rw [List.eq_of_mem_replicate hc]
  decide

mutual

theorem isLine_outlineAt (depth : Nat) :
    ∀ node : Node, node.IsCanonical → ∀ line ∈ outlineAt depth node, Text.IsLine line
  | document _, h => h.elim
  | text content, h => by
    rw [outlineAt]
    exact List.forall_mem_singleton.2 (isLine_indented (isLine_summary h) depth)
  | echo tokens, h => by
    rw [outlineAt]
    exact List.forall_mem_singleton.2 (isLine_indented (isLine_summary h) depth)
  | loop header children, h => by
    rw [outlineAt]
    exact List.forall_mem_cons.2 ⟨isLine_indented (isLine_summary h) depth,
      isLine_outlineAll (depth + 1) children h.2⟩

/-- The lines of canonical nodes have no breaks in them. -/
theorem isLine_outlineAll (depth : Nat) :
    ∀ nodes : List Node, AreCanonical nodes → ∀ line ∈ outlineAll depth nodes, Text.IsLine line
  | [], _ => by
    rw [outlineAll]
    exact List.forall_mem_nil _
  | node :: nodes, h => by
    rw [outlineAll]
    exact List.forall_mem_append.2
      ⟨isLine_outlineAt depth node h.1, isLine_outlineAll depth nodes h.2.2⟩

end

/-! ## Rebuilding the tree -/

theorem tokens_inj {header header' : Loop} (h : header.tokens = header'.tokens) :
    header = header' := by
  obtain ⟨name, start, stop, step⟩ := header
  obtain ⟨name', start', stop', step'⟩ := header'
  cases step <;> cases step' <;> simp_all [Loop.tokens]

/-- The letter that the line of a node begins with. -/
def initial : Node → CodePoint
  | document _ => 'D'
  | text _ => 'T'
  | echo _ => 'E'
  | loop .. => 'F'

theorem head?_summary (node : Node) : node.summary.toList.head? = some node.initial := by
  cases node <;> simp [summary, initial, Text.toList_append]

/-- Two nodes that are the same but for their children, of which there are equally many. -/
inductive Alike : Node → Node → Prop
  | text (content : Text) : Alike (text content) (text content)
  | echo (tokens : List Token) : Alike (echo tokens) (echo tokens)
  | loop (header : Loop) {children children' : List Node} : children.length = children'.length →
      Alike (loop header children) (loop header children')

/-- **What the line of a node tells**: all but its children. -/
theorem alike_of_summary {a b : Node} (ha : a.IsCanonical) (hb : b.IsCanonical)
    (h : a.summary = b.summary) :
    Alike a b := by
  have hinitial : some a.initial = some b.initial := by
    rw [← head?_summary, h, head?_summary]
  have hclosed : ∀ {s t : Text}, s ++ ")" = t ++ ")" → s = t := fun h =>
    (Text.append_left_inj _).1 h
  cases a with
  | document => exact ha.elim
  | text content =>
    cases b with
    | text content' =>
      have hquoted := (Text.append_right_inj _).1 (hclosed h)
      rw [Text.quoted_inj hquoted]
      exact .text content'
    | document | echo | loop => simp [initial] at hinitial
  | echo tokens =>
    cases b with
    | echo tokens' =>
      have hjoined := (Text.append_right_inj _).1 (hclosed h)
      rw [joined_inj ha hb hjoined]
      exact .echo tokens'
    | document | text | loop => simp [initial] at hinitial
  | loop header children =>
    cases b with
    | loop header' children' =>
      obtain ⟨hline, hcount⟩ := append_countText_inj h
      have hjoined := (Text.append_right_inj _).1 (hclosed hline)
      rw [tokens_inj (joined_inj ha.1 hb.1 hjoined)]
      exact .loop header' hcount
    | document | text | echo => simp [initial] at hinitial

theorem indented_inj {depth : Nat} {line line' : Text}
    (h : indented depth line = indented depth line') :
    line = line' := (Text.append_right_inj _).1 h

theorem outlineAt_eq (depth : Nat) (node : Node) :
    outlineAt depth node = indented depth node.summary :: outlineAll (depth + 1) node.children := by
  cases node <;> rw [outlineAt] <;> simp only [children, outlineAll]

/-- What the first line of an outline tells, and the lines behind it. -/
theorem alike_of_outlineAt {depth : Nat} {a b : Node} (ha : a.IsCanonical) (hb : b.IsCanonical)
    {rest rest' : List Text} (h : outlineAt depth a ++ rest = outlineAt depth b ++ rest') :
    Alike a b ∧ outlineAll (depth + 1) a.children ++ rest =
      outlineAll (depth + 1) b.children ++ rest' := by
  rw [outlineAt_eq, outlineAt_eq, List.cons_append, List.cons_append] at h
  obtain ⟨hline, hrest⟩ := List.cons.inj h
  exact ⟨alike_of_summary ha hb (indented_inj hline), hrest⟩

mutual

/-- From the lines at the front of a list the node can be rebuilt that they are for, and what
follows them. -/
theorem outlineAt_inj (depth : Nat) : ∀ (a b : Node), a.IsCanonical → b.IsCanonical →
    ∀ {rest rest' : List Text}, outlineAt depth a ++ rest = outlineAt depth b ++ rest' → a = b ∧
      rest = rest'
  | document _, _, ha, _, _, _, _ => ha.elim
  | text content, b, ha, hb, rest, rest', h => by
    obtain ⟨halike, hrest⟩ := alike_of_outlineAt ha hb h
    cases halike
    exact ⟨rfl, hrest⟩
  | echo tokens, b, ha, hb, rest, rest', h => by
    obtain ⟨halike, hrest⟩ := alike_of_outlineAt ha hb h
    cases halike
    exact ⟨rfl, hrest⟩
  | loop header children, b, ha, hb, rest, rest', h => by
    obtain ⟨halike, hrest⟩ := alike_of_outlineAt ha hb h
    cases halike with
    | @loop _ _ children' hlength =>
      obtain ⟨hchildren, hbehind⟩ :=
        outlineAll_inj (depth + 1) children children' ha.2 hb.2 hlength hrest
      exact ⟨by rw [hchildren], hbehind⟩

theorem outlineAll_inj (depth : Nat) : ∀ (nodes nodes' : List Node), AreCanonical nodes →
    AreCanonical nodes' →
    nodes.length = nodes'.length → ∀ {rest rest' : List Text},
    outlineAll depth nodes ++ rest = outlineAll depth nodes' ++ rest' → nodes = nodes' ∧
      rest = rest'
  | [], [], _, _, _, rest, rest', h => ⟨rfl, h⟩
  | node :: nodes, node' :: nodes', hn, hn', hlength, rest, rest', h => by
    rw [outlineAll, outlineAll, List.append_assoc, List.append_assoc] at h
    obtain ⟨hnode, hbehind⟩ := outlineAt_inj depth node node' hn.1 hn'.1 h
    obtain ⟨hnodes, hrest⟩ :=
      outlineAll_inj depth nodes nodes' hn.2.2 hn'.2.2 (Nat.succ.inj hlength) hbehind
    exact ⟨by rw [hnode, hnodes], hrest⟩

end

theorem outline_inj {doc doc' : Node} (hdoc : doc.IsCanonicalDocument)
    (hdoc' : doc'.IsCanonicalDocument)
    (h : doc.outline = doc'.outline) : doc = doc' := by
  cases doc with
  | text | echo | loop => exact hdoc.elim
  | document children =>
    cases doc' with
    | text | echo | loop => exact hdoc'.elim
    | document children' =>
      rw [outline, outline, outlineAt, outlineAt] at h
      obtain ⟨hline, hrest⟩ := List.cons.inj h
      obtain ⟨-, hcount⟩ := append_countText_inj (indented_inj hline)
      have hchildren :=
        outlineAll_inj 1 children children' hdoc hdoc' hcount (congrArg (· ++ []) hrest)
      rw [hchildren.1]

theorem toList_lines_cons (l : Text) (ls : List Text) :
    (CommandLine.lines (l :: ls)).toList = l.toList ++ ↑ '\n' :: (CommandLine.lines ls).toList := by
  rw [CommandLine.lines, List.map_cons, Text.join_cons, Text.toList_append,
    Text.toList_append,
    List.append_assoc]
  rfl

theorem lines_ne_empty (l : Text) (ls : List Text) : CommandLine.lines (l :: ls) ≠ "" := by
  intro hempty
  have hchars := toList_lines_cons l ls
  rw [hempty] at hchars
  simp at hchars

/-- Lines without breaks are told by the text that ends each of them with a line feed. -/
theorem lines_inj {ls ls' : List Text} (h : ∀ l ∈ ls, Text.IsLine l)
    (h' : ∀ l ∈ ls', Text.IsLine l)
    (heq : CommandLine.lines ls = CommandLine.lines ls') : ls = ls' := by
  have hfeed : ∀ {l : Text}, Text.IsLine l → ↑ '\n' ∉ l.toList := fun hl hc => (hl _ hc).1 rfl
  induction ls generalizing ls' with
  | nil =>
    cases ls' with
    | nil => rfl
    | cons l' ls' => exact absurd heq.symm (lines_ne_empty l' ls')
  | cons l ls ih =>
    cases ls' with
    | nil => exact absurd heq (lines_ne_empty l ls)
    | cons l' ls' =>
      obtain ⟨hl, hls⟩ := List.forall_mem_cons.1 h
      obtain ⟨hl', hls'⟩ := List.forall_mem_cons.1 h'
      have hchars := congrArg Text.toList heq
      rw [toList_lines_cons, toList_lines_cons] at hchars
      obtain ⟨hline, hrest⟩ := eq_of_append_cons (hfeed hl) (hfeed hl') hchars
      rw [Text.toList_inj.1 hline, ih hls hls' (Text.toList_inj.1 hrest)]

theorem isLine_outline {doc : Node} (h : doc.IsCanonicalDocument) :
    ∀ line ∈ doc.outline, Text.IsLine line := by
  cases doc with
  | text | echo | loop => exact h.elim
  | document children =>
    have hsummary : Text.IsLine (document children).summary :=
      .append (by decide) (isLine_countText _)
    rw [outline, outlineAt]
    exact List.forall_mem_cons.2 ⟨isLine_indented hsummary 0, isLine_outlineAll 1 children h⟩

/-- **The outline of a template is faithful.** Its lines are those for the nodes of the tree, one
for each: they come in the order of the paths to the nodes, in which a parent comes before its
children and these in their order, each with two blanks for every level, and no line has a break in
it. And two templates with the same outline, even as it is printed, are the same. -/
theorem outline_faithful {s : Text} {doc : Node} (h : parse s = .ok doc) :
    (doc.paths.Pairwise (· < ·) ∧ (∀ path, path ∈ doc.paths ↔ (doc.at? path).isSome = true) ∧
      List.Forall₂ (fun path line => ∃ node, doc.at? path = some node ∧
        line = .ofList (List.replicate (2 * path.length) (' ' : CodePoint)) ++ node.summary)
          doc.paths
          doc.outline) ∧
    (∀ line ∈ doc.outline, ∀ c ∈ line.toList, c ≠ '\n' ∧ c ≠ '\r') ∧
    ∀ s' doc', parse s' = .ok doc' →
      (doc.outline = doc'.outline → doc = doc') ∧
      (CommandLine.lines doc.outline = CommandLine.lines doc'.outline → doc = doc') := by
  have hdoc := isCanonicalDocument_of_parse h
  refine ⟨⟨sorted_paths doc, mem_paths_iff doc, ?_⟩, isLine_outline hdoc, fun s' doc' h' => ?_⟩
  · refine (shows_outlineAt 0 doc).imp fun path line hshows => ?_
    obtain ⟨node, hnode, rfl⟩ := hshows
    exact ⟨node, hnode, by rw [Nat.zero_add, indented]⟩
  · have hdoc' := isCanonicalDocument_of_parse h'
    exact ⟨outline_inj hdoc hdoc', fun hlines =>
      outline_inj hdoc hdoc' (lines_inj (isLine_outline hdoc) (isLine_outline hdoc') hlines)⟩

/-- An echo of two tokens and one of a text that looks like them have different outlines. -/
theorem outline_faithful_tokens :
    let tokens : Node := .document [.echo [.loopVariable "a", .loopVariable "b"]]
    let string : Node := .document [.echo [.text "a b"]]
    parse "\x7b$= a b $\x7d" = .ok tokens ∧ parse "\x7b$= \"a b\" $\x7d" = .ok string ∧
      tokens.outline ≠ string.outline := by
  intro tokens string
  have htokens : parse "\x7b$= a b $\x7d" = .ok tokens := by decide +kernel
  have hstring : parse "\x7b$= \"a b\" $\x7d" = .ok string := by decide +kernel
  have hne : tokens ≠ string := by decide
  exact ⟨htokens, hstring, fun h => hne (((outline_faithful htokens).2.2 _ _ hstring).1 h)⟩

end Node

end TagTemplate
