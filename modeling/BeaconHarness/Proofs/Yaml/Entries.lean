import BeaconHarness.Proofs.Yaml.Lines
import BeaconHarness.Yaml.Document
import Mathlib.Data.List.Nodup

/-!
# Values of documents of one entry per line

The tokens of lines form a mapping with an entry for each line, and the value of the mapping has the
value of each scalar under the text of its key. What a word denotes is seen from its form; a text
between quotes is always a text.

Main statement: the value of a document of lines with different keys (`readDocument_textOf`).
-/

namespace BeaconHarness.Datum

/-! ## Keys -/

theorem put_of_fresh {key value : Datum} {read : List (Datum × Datum)}
    (h : ∀ e ∈ read, same e.1 key = false) : put key value read = read ++ [(key, value)] := by
  induction read with
  | nil => rfl
  | cons e read ih =>
    obtain ⟨he, hread⟩ := List.forall_mem_cons.mp h
    rw [put, he, if_neg Bool.false_ne_true, ih hread, List.cons_append]

/-- Entries with different texts as keys are collected as they are. -/
theorem collect_of_nodup {entries : List (String × Datum)} (h : (entries.map Prod.fst).Nodup) :
    collect (entries.map fun e => (.str e.1, e.2)) = entries.map fun e => (.str e.1, e.2) := by
  have hfold : ∀ read : List (String × Datum), ((read ++ entries).map Prod.fst).Nodup →
      (entries.map fun e => (Datum.str e.1, e.2)).foldl (fun read e => put e.1 e.2 read)
        (read.map fun e => (.str e.1, e.2))
      = (read ++ entries).map fun e => (.str e.1, e.2) := by
    clear h
    induction entries with
    | nil =>
      intro read _
      rw [List.append_nil]
      rfl
    | cons e entries ih =>
      intro read hnodup
      have hfresh : ∀ d ∈ read.map (fun e => (Datum.str e.1, e.2)),
          same d.1 (.str e.1) = false := by
        intro d hd
        obtain ⟨f, hf, rfl⟩ := List.mem_map.mp hd
        rw [List.map_append, List.nodup_append] at hnodup
        have hne : f.1 ≠ e.1 := hnodup.2.2 f.1 (List.mem_map_of_mem hf) e.1
          (List.mem_map_of_mem List.mem_cons_self)
        rw [same_str, decide_eq_false hne]
      have happend : read ++ e :: entries = (read ++ [e]) ++ entries := by
        rw [List.append_assoc, List.singleton_append]
      rw [List.map_cons, List.foldl_cons, put_of_fresh hfresh, happend,
        ← ih (read ++ [e]) (happend ▸ hnodup), List.map_append]
      rfl
  exact hfold [] h

end BeaconHarness.Datum

namespace BeaconHarness.Yaml

/-! ## The nodes of lines -/

namespace Inline

def node : Inline → Node
  | word text _ => .scalar (Scalar.kindOf text) (String.ofList text)
  | quoted text _ => .scalar .str (String.ofList text)

/-- Whether a scalar denotes a datum. -/
def Denotes : Inline → Datum → Prop
  | word text _, d => Scalar.read (Scalar.kindOf text) (String.ofList text) = .ok d
  | quoted text _, d => .str (String.ofList text) = d

end Inline

def Line.node (l : Line) : Node × Node :=
  (.scalar (Scalar.kindOf l.key) (String.ofList l.key), l.value.node)

namespace Node

variable {s : Supply} {t u : Token} {ts : List Token} {text : String} {isPlain : Bool}

theorem peek_cons : peek { s with tokens := t :: ts } = .ok (t, { s with tokens := t :: ts }) := rfl

theorem accept_self :
    accept t { s with tokens := t :: ts } = .ok (true, { s with tokens := ts }) := by
  simp only [accept, bind, StateT.bind, Except.bind, peek_cons, if_true]
  rfl

theorem accept_of_ne (h : u ≠ t) :
    accept t { s with tokens := u :: ts } = .ok (false, { s with tokens := u :: ts }) := by
  simp only [accept, bind, StateT.bind, Except.bind, peek_cons, if_neg h]
  rfl

/-! ## Scalars -/

theorem read_scalar (fuel : Nat) (place : Place) :
    read (fuel + 1) place { s with tokens := .scalar text isPlain :: ts }
      = .ok (.scalar (kindOfScalar none text isPlain) text, { s with tokens := ts }) := rfl

theorem readUnless_scalar (fuel : Nat) (place : Place) {ends : List Token}
    (hends : ends.contains (.scalar text isPlain) = false) :
    readUnless (fuel + 2) place ends { s with tokens := .scalar text isPlain :: ts }
      = .ok (.scalar (kindOfScalar none text isPlain) text, { s with tokens := ts }) := by
  simp only [readUnless, bind, StateT.bind, Except.bind, peek_cons, hends, Bool.false_eq_true,
    if_false, read_scalar]

/-- What may come next where a key or a value is missing. -/
def entryEnds : List Token := [.key, .value, .blockEnd]

theorem readUnless_value (fuel : Nat) (place : Place) (x : Inline) :
    readUnless (fuel + 2) place entryEnds { s with tokens := x.token :: ts }
      = .ok (x.node, { s with tokens := ts }) := by
  cases x with
  | word text h =>
    rw [Inline.token, readUnless_scalar fuel place rfl, kindOfScalar, if_pos rfl,
      String.toList_ofList, Inline.node]
  | quoted text h => exact readUnless_scalar fuel place rfl

/-! ## The mapping -/

/-- A key and a value are read one after the other, and then the entries behind them. -/
theorem readEntries_cons {fuel : Nat} {key value : Node} {more : List (Node × Node)}
    {us vs ws : List Token}
    (hkey : readUnless fuel .entry entryEnds { s with tokens := ts }
      = .ok (key, { s with tokens := .value :: us }))
    (hvalue : readUnless fuel .entry entryEnds { s with tokens := us }
      = .ok (value, { s with tokens := vs }))
    (hmore : readEntries fuel { s with tokens := vs } = .ok (more, { s with tokens := ws })) :
    readEntries (fuel + 1) { s with tokens := .key :: ts }
      = .ok ((key, value) :: more, { s with tokens := ws }) := by
  unfold entryEnds at hkey hvalue
  simp only [readEntries, bind, StateT.bind, Except.bind, accept_self, if_true, hkey, hvalue, hmore]
  rfl

theorem readEntries_nil (fuel : Nat) :
    readEntries (fuel + 1) { s with tokens := .blockEnd :: ts }
      = .ok ([], { s with tokens := ts }) := by
  have hnone : Token.blockEnd ≠ .key := nofun
  simp only [readEntries, bind, StateT.bind, Except.bind, accept_of_ne hnone]
  rfl

/-- The tokens of lines are read as one entry each. -/
theorem readEntries_lines (lines : List Line) (fuel : Nat) :
    readEntries (fuel + lines.length + 3)
        { s with tokens := lines.flatMap Line.tokens ++ .blockEnd :: ts }
      = .ok (lines.map Line.node, { s with tokens := ts }) := by
  induction lines with
  | nil => exact readEntries_nil _
  | cons l lines ih =>
    have hfuel : fuel + (l :: lines).length + 3 = (fuel + lines.length + 3) + 1 := by
      rw [List.length_cons]
      omega
    rw [hfuel, List.flatMap_cons, List.append_assoc]
    exact readEntries_cons (readUnless_value _ _ (.word l.key l.isWord))
      (readUnless_value _ _ l.value) ih

theorem deeper_of_ok {parts : Step Node} {node : Node} {s' : Supply} (hdepth : s.depth < deepest)
    (hparts : parts { s with depth := s.depth + 1 } = .ok (node, s')) :
    deeper parts s = .ok (node, { s' with depth := s.depth }) := by
  have hdeep : ¬ deepest < s.depth + 1 := Nat.not_lt.mpr hdepth
  have hget : (get : Step Supply) s = .ok (s, s) := rfl
  have hmodify : ∀ (t : Supply) (depth : Nat), (modify fun s => { s with depth } : Step Unit) t
      = .ok ((), { t with depth }) := fun _ _ => rfl
  simp only [deeper, bind, StateT.bind, Except.bind, hget, if_neg hdeep, hmodify, hparts]
  rfl

theorem namedWhile_none {parts : Step Node} {node : Node} {s' : Supply} {isMapping : Bool}
    (hparts : deeper parts s = .ok (node, s')) :
    namedWhile none isMapping parts s = .ok (node, s') := by
  have hpure : ∀ t : Supply, (pure () : Step Unit) t = .ok ((), t) := fun _ => rfl
  simp only [namedWhile, checkAnchor, bindAnchor, bind, StateT.bind, Except.bind, hpure, hparts]
  rfl

/-- The entries of a block are those of a mapping, which lies one level deeper. -/
theorem read_mapping {fuel : Nat} {entries : List (Node × Node)} {us : List Token}
    (hdepth : s.depth < deepest)
    (hentries : readEntries fuel { s with tokens := ts, depth := s.depth + 1 }
      = .ok (entries, { s with tokens := us, depth := s.depth + 1 })) :
    read (fuel + 1) .block { s with tokens := .blockMappingStart :: ts }
      = .ok (.mapping .map entries, { s with tokens := us }) := by
  have hread : read (fuel + 1) .block { s with tokens := .blockMappingStart :: ts }
      = namedWhile none true (skip >>= (fun _ => readEntries fuel)
          >>= fun entries => pure (.mapping .map entries))
        { s with tokens := .blockMappingStart :: ts } := rfl
  rw [hread]
  have hskip : skip { s with tokens := .blockMappingStart :: ts, depth := s.depth + 1 }
      = .ok ((), { s with tokens := ts, depth := s.depth + 1 }) := rfl
  have hparts : (skip >>= (fun _ => readEntries fuel)
        >>= fun entries => (pure (.mapping .map entries) : Step Node))
        { s with tokens := .blockMappingStart :: ts, depth := s.depth + 1 }
      = .ok (.mapping .map entries, { s with tokens := us, depth := s.depth + 1 }) := by
    simp only [bind, StateT.bind, Except.bind, hskip, hentries]
    rfl
  exact namedWhile_none
    (deeper_of_ok (s := { s with tokens := .blockMappingStart :: ts }) hdepth hparts)

/-- The tokens of a block of lines are read as a mapping. -/
theorem read_lines (lines : List Line) (fuel : Nat) (hdepth : s.depth < deepest) :
    read (fuel + lines.length + 4) .block
        { s with tokens := .blockMappingStart :: (lines.flatMap Line.tokens ++ .blockEnd :: ts) }
      = .ok (.mapping .map (lines.map Line.node), { s with tokens := ts }) :=
  read_mapping hdepth (readEntries_lines (s := { s with depth := s.depth + 1 }) lines fuel)

/-! ## The document -/

/-- A document is over at the end of its tokens. -/
theorem nextDocument_of_streamEnd (fuel : Nat) :
    nextDocument (fuel + 1) { s with tokens := .streamEnd :: ts }
      = .ok (false, { s with tokens := .streamEnd :: ts }) := by
  have hnone : Token.streamEnd ≠ .documentEnd := nofun
  have hskip : skipEnds (fuel + 1) { s with tokens := .streamEnd :: ts }
      = .ok ((), { s with tokens := .streamEnd :: ts }) := by
    simp only [skipEnds, bind, StateT.bind, Except.bind, accept_of_ne hnone]
    rfl
  simp only [nextDocument, bind, StateT.bind, Except.bind, hskip, peek_cons, if_true]
  rfl

theorem readContent_of_block {fuel : Nat} {node : Node} {s' : Supply}
    (hnode : read fuel .block { s with tokens := .blockMappingStart :: ts, handles := usualHandles }
      = .ok (node, s')) :
    readContent fuel { s with tokens := .blockMappingStart :: ts } = .ok (some node, s') := by
  have hmodify : (modify fun s => { s with handles := usualHandles } : Step Unit)
      { s with tokens := .blockMappingStart :: ts }
      = .ok ((), { s with tokens := .blockMappingStart :: ts, handles := usualHandles }) := rfl
  simp only [readContent, bind, StateT.bind, Except.bind, peek_cons, hmodify, hnode]
  rfl

theorem readOnly_of_readContent {fuel : Nat} {node : Node} {t : Supply}
    (hcontent : readContent (fuel + 1) t = .ok (some node, { s with tokens := [.streamEnd] })) :
    readOnly (fuel + 1) t = .ok (some node, { s with tokens := [.streamEnd] }) := by
  have hnone : Token.streamEnd ≠ .documentEnd := nofun
  simp only [readOnly, bind, StateT.bind, Except.bind, hcontent, Option.isSome_some, if_true,
    accept_of_ne hnone, nextDocument_of_streamEnd]
  rfl

theorem length_tokens (lines : List Line) :
    (lines.flatMap Line.tokens).length = 4 * lines.length := by
  induction lines with
  | nil => rfl
  | cons l lines ih =>
    rw [List.flatMap_cons, List.length_append, ih, Line.tokens]
    simp only [List.length_cons, List.length_nil]
    omega

/-- The tokens of a document of lines form a mapping. -/
theorem ofTokens_lines (lines : List Line) (fault : Failure) :
    ofTokens ⟨.blockMappingStart :: lines.flatMap Line.tokens ++ [.blockEnd, .streamEnd], fault⟩
      = .ok (some (.mapping .map (lines.map Line.node))) := by
  have htokens : .blockMappingStart :: lines.flatMap Line.tokens ++ [.blockEnd, .streamEnd]
      = .blockMappingStart :: (lines.flatMap Line.tokens ++ .blockEnd :: [.streamEnd]) := rfl
  -- The reader is given more steps than the lines need.
  have hfuel : 4 * (Token.blockMappingStart
      :: (lines.flatMap Line.tokens ++ .blockEnd :: [.streamEnd])).length + 8
        = (15 * lines.length + 16) + lines.length + 4 := by
    simp only [List.length_cons, List.length_append, List.length_nil, length_tokens]
    omega
  have hroot : 0 < deepest := by decide
  have hread : read ((15 * lines.length + 16) + lines.length + 4) .block
      { tokens := .blockMappingStart :: (lines.flatMap Line.tokens ++ .blockEnd :: [.streamEnd]),
        fault, handles := usualHandles }
      = .ok (.mapping .map (lines.map Line.node),
        { tokens := [.streamEnd], fault, handles := usualHandles }) :=
    read_lines (s := { tokens := [], fault, handles := usualHandles }) lines _ hroot
  have honly := readOnly_of_readContent (s := { tokens := [], fault, handles := usualHandles })
    (readContent_of_block (s := { tokens := [], fault }) hread)
  rw [htokens, ofTokens]
  simp only [hfuel, StateT.run', honly]
  rfl

end Node

/-! ## Values -/

variable {ι : Type} {line : ι → Line} {entry : ι → Datum × Datum} {xs : List ι}

/-- Whether a line denotes an entry, whose key is the text of its own. -/
def Line.Denotes (l : Line) (e : Datum × Datum) : Prop :=
  Scalar.kindOf l.key = .str ∧ e.1 = .str (String.ofList l.key) ∧ l.value.Denotes e.2

theorem value_node {x : Inline} {d : Datum} (h : x.Denotes d) (depth : Nat) :
    Node.value depth x.node = .ok d := by
  cases x with
  | word text hword =>
    have hread : Scalar.read (Scalar.kindOf text) (String.ofList text) = .ok d := h
    simp only [Inline.node, Node.value, hread, Valued.atDepth, Except.mapError]
  | quoted text hinner =>
    have htext : Datum.str (String.ofList text) = d := h
    rw [← htext]
    rfl

/-- The value of an entry whose key is a text. -/
theorem entry_of_text (depth : Nat) (text : String) (v : Node) :
    Node.entry depth (.scalar .str text, v)
      = Valued.both (.ok (.str text)) (Node.value depth v) := rfl

theorem parts_cons_of_text (depth : Nat) (text : String) (v : Node) (rest : List (Node × Node)) :
    Node.parts depth ((.scalar .str text, v) :: rest)
      = (Node.parts depth rest).map fun p =>
        { p with own := Node.entry depth (.scalar .str text, v) :: p.own } := rfl

theorem value_mapping (depth : Nat) (entries : List (Node × Node)) :
    Node.value depth (.mapping .map entries)
      = (do
        let parts ← .atDepth (depth + 1) (Node.parts (depth + 1) entries)
        let entries ← Valued.all parts.toList
        return .dict (Datum.collect entries)) := rfl

/-- All entries of lines are entries of their own, none of them taken over from elsewhere. -/
theorem parts_lines (h : ∀ x ∈ xs, (line x).Denotes (entry x)) (depth : Nat) :
    Node.parts depth (xs.map fun x => (line x).node)
      = .ok { own := xs.map fun x => .ok (entry x) } := by
  induction xs with
  | nil => rfl
  | cons x xs ih =>
    obtain ⟨hx, hxs⟩ := List.forall_mem_cons.mp h
    obtain ⟨hkind, hkey, hvalue⟩ := hx
    have hentry : Valued.both (.ok (.str (String.ofList (line x).key)))
        (Node.value depth (line x).value.node) = .ok (entry x) := by
      rw [value_node hvalue, ← hkey]
      rfl
    rw [List.map_cons, List.map_cons, Line.node, hkind, parts_cons_of_text, ih hxs, entry_of_text,
      hentry]
    rfl

/-! ## Documents -/

theorem normalize_eq_self {text : List Char} (h : ∀ c ∈ text, c ≠ '\r') :
    normalize text = text := by
  fun_induction normalize text with
  | case1 rest ih => exact absurd rfl (h '\r' List.mem_cons_self)
  | case2 c rest hc ih =>
    rw [if_neg (h c List.mem_cons_self), ih fun d hd => h d (List.mem_cons_of_mem c hd)]
  | case3 => rfl

theorem isAllowed_written (x : Inline) : ∀ c ∈ x.written, isAllowed c = true ∧ c ≠ '\r' := by
  intro c hc
  cases x with
  | word text h =>
    obtain ⟨-, -, -, -, hallowed, hreturn⟩ := of_isNameChar (h.2 c hc)
    exact ⟨hallowed, hreturn⟩
  | quoted text h =>
    rw [Inline.written, List.mem_append, List.mem_cons, List.mem_singleton] at hc
    rcases hc with (rfl | hc) | rfl
    · decide
    · obtain ⟨-, -, -, hallowed, hreturn⟩ := h c hc
      exact ⟨hallowed, hreturn⟩
    · decide

/-- A document of lines has no character that a document must not have. -/
theorem isAllowed_textOf (ended : Bool) (lines : List Line) :
    ∀ c ∈ textOf ended lines, isAllowed c = true ∧ c ≠ '\r' := by
  induction lines with
  | nil => nofun
  | cons l lines ih =>
    intro c hc
    obtain ⟨ending, htext, hending⟩ := exists_ending ended l lines
    rw [htext, Line.written, List.mem_append, List.mem_append, List.mem_cons, List.mem_cons] at hc
    rcases hc with (hc | rfl | rfl | hc) | hc
    · obtain ⟨-, -, -, -, hallowed, hreturn⟩ := of_isNameChar (l.isWord.2 c hc)
      exact ⟨hallowed, hreturn⟩
    · decide
    · decide
    · exact isAllowed_written l.value c hc
    · rcases hending.mem hc with rfl | hc
      · decide
      · exact ih c hc

/-- A document of lines with different keys denotes the mapping of the entries that its lines
denote. -/
theorem readDocument_textOf (ended : Bool) (hne : xs ≠ [])
    (hlines : ∀ x ∈ xs, (line x).Denotes (entry x))
    (hnodup : (xs.map fun x => (line x).key).Nodup) :
    readDocument (String.ofList (textOf ended (xs.map line))) = .ok (.dict (xs.map entry)) := by
  have hallowed := isAllowed_textOf ended (xs.map line)
  have hlinesNe : xs.map line ≠ [] := fun h => hne (List.map_eq_nil_iff.mp h)
  have hnode : readNode (String.ofList (textOf ended (xs.map line)))
      = .ok (some (.mapping .map ((xs.map line).map Line.node))) := by
    have hall : (textOf ended (xs.map line)).all isAllowed = true :=
      List.all_eq_true.mpr fun c hc => (hallowed c hc).1
    rw [readNode, String.toList_ofList, normalize_eq_self fun c hc => (hallowed c hc).2]
    simp only [hall, if_true, Token.divide_textOf ended hlinesNe, Node.ofTokens_lines]
  have hcollect : Datum.collect (xs.map entry) = xs.map entry := by
    have htexts : xs.map entry
        = (xs.map fun x => (String.ofList (line x).key, (entry x).2)).map
          fun e => (Datum.str e.1, e.2) := by
      rw [List.map_map]
      exact List.map_congr_left fun x hx => Prod.ext (hlines x hx).2.1 rfl
    rw [htexts]
    refine Datum.collect_of_nodup ?_
    have hkeys := hnodup.map fun _ _ h => String.ofList_injective h
    rwa [List.map_map] at hkeys ⊢
  have hvalue : Node.value 0 (.mapping .map ((xs.map line).map Line.node))
      = .ok (.dict (xs.map entry)) := by
    have hparts : Node.parts 1 ((xs.map line).map Line.node)
        = .ok { own := xs.map fun x => .ok (entry x) } := by
      rw [List.map_map]
      exact parts_lines hlines 1
    have hall : Valued.all (xs.map fun x => .ok (entry x)) = .ok (xs.map entry) := by
      have hmap : (xs.map fun x => (.ok (entry x) : Valued (Datum × Datum)))
          = (xs.map entry).map .ok := (List.map_map).symm
      rw [hmap, Valued.all_ok]
    rw [value_mapping, hparts]
    simp only [Valued.atDepth, Except.mapError, bind, Except.bind, Parts.toList, List.nil_append,
      hall, hcollect]
    rfl
  simp only [readDocument, bind, Except.bind, hnode, hvalue]
  rfl

end BeaconHarness.Yaml
