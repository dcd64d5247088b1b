import SceneGraph.Document.Writing
import SceneGraph.Proofs.Document.Contents

/-!
# What outlines tell

`NodeOutline.Tells` relates an outline to the nodes of a world: which node stands at its place, and
which nodes have been declared before and after it. Every declared node is told field by field, in the
order of `Node.written`.

* `NodeOutline.Tells.tokensOf_text`: the text of an outline is lexed into its tokens.
-/

namespace SceneGraph

open Numeral (Loose startsWith)

/-- A field as a declaration has it; a field of a node's own is declared with its kind. -/
structure WrittenField where
  own : Bool
  name : String
  value : Field

/-- What stands in front of the value of a field. -/
def WrittenField.label (f : WrittenField) : String :=
  if f.own then s!"{f.value.kind.keyword} {f.name}" else f.name

/-- The fields of a node in the order in which they are written. -/
def Node.written (n : Node) : List WrittenField :=
  (Outliner.writtenFields n).map (fun f => ⟨false, f.1, f.2⟩) ++ n.dynamic.map fun f => ⟨true, f.1, f.2⟩

mutual

/-- Given the nodes declared before, an outline tells of a node, or of none, and leaves some nodes
declared. -/
inductive NodeOutline.Tells (w : World) (names : NodeNames) :
    List NodeId → NodeOutline → Option NodeId → List NodeId → Prop
  | null (before : List NodeId) : NodeOutline.Tells w names before .null none before
  | use {before : List NodeId} {id : NodeId} (name : String) (hid : id ∈ before)
      (hname : names.name? id = some name) : NodeOutline.Tells w names before (.use name) (some id) before
  | declare {before after : List NodeId} (id : NodeId) (n : Node) (entries : List EntryOutline)
      (hnew : id ∉ before) (hn : w.node? id = some n)
      (hentries : EntryOutline.TellAll w names (id :: before) entries n.written after) :
      NodeOutline.Tells w names before (.declare id (names.name? id) n.typeName entries) (some id) after

/-- Entries tell the contents of some fields. -/
inductive EntryOutline.TellAll (w : World) (names : NodeNames) :
    List NodeId → List EntryOutline → List WrittenField → List NodeId → Prop
  | nil (before : List NodeId) : EntryOutline.TellAll w names before [] [] before
  | value {before after : List NodeId} (f : WrittenField) {entries : List EntryOutline}
      {fields : List WrittenField} (ht : f.value.kind.type ≠ .node)
      (hrest : EntryOutline.TellAll w names before entries fields after) :
      EntryOutline.TellAll w names before (.value f.label f.value :: entries) (f :: fields) after
  | node {before between after : List NodeId} (f : WrittenField) (o : NodeOutline)
      (entries : List EntryOutline) {fields : List WrittenField}
      (ht : f.value.kind = ⟨.node, .single⟩)
      (hnode : NodeOutline.Tells w names before o f.value.references.head? between)
      (hrest : EntryOutline.TellAll w names between entries fields after) :
      EntryOutline.TellAll w names before (.node f.label o :: entries) (f :: fields) after
  | nodes {before between after : List NodeId} (f : WrittenField) (os : List NodeOutline)
      {entries : List EntryOutline} {fields : List WrittenField}
      (ht : f.value.kind = ⟨.node, .multi⟩)
      (hnodes : NodeOutline.TellAll w names before os f.value.references between)
      (hrest : EntryOutline.TellAll w names between entries fields after) :
      EntryOutline.TellAll w names before (.nodes f.label os :: entries) (f :: fields) after

/-- Outlines tell of some nodes, one after the other. -/
inductive NodeOutline.TellAll (w : World) (names : NodeNames) :
    List NodeId → List NodeOutline → List NodeId → List NodeId → Prop
  | nil (before : List NodeId) : NodeOutline.TellAll w names before [] [] before
  | cons {before between after : List NodeId} {o : NodeOutline} {id : NodeId} {os : List NodeOutline}
      {ids : List NodeId} (hnode : NodeOutline.Tells w names before o (some id) between)
      (hrest : NodeOutline.TellAll w names between os ids after) :
      NodeOutline.TellAll w names before (o :: os) (id :: ids) after

end

variable {w : World} {names : NodeNames} {header : Option Header}

/-! ### Tokens -/

mutual

/-- The tokens of an outline. -/
def NodeOutline.tokens (header : Option Header) : NodeOutline → List Token
  | .null => [.keyword .null]
  | .use name => [.keyword .use, .identifier name]
  | .declare _ name typeName entries =>
    name.elim [] (fun name => [.keyword .define, .identifier name]) ++
      (.identifier typeName :: .symbol .nodeBegin ::
        (EntryOutline.allTokens header entries ++ [.symbol .nodeEnd]))

/-- The tokens of an entry. -/
def EntryOutline.tokens (header : Option Header) : EntryOutline → List Token
  | .value label f => tokensOf header label.toList ++ f.tokens
  | .node label n => tokensOf header label.toList ++ n.tokens header
  | .nodes label ns => tokensOf header label.toList ++
      (.symbol .listBegin :: (NodeOutline.allTokens header ns ++ [.symbol .listEnd]))

/-- The tokens of outlines, one after the other. -/
def NodeOutline.allTokens (header : Option Header) : List NodeOutline → List Token
  | [] => []
  | n :: rest => n.tokens header ++ NodeOutline.allTokens header rest

/-- The tokens of entries, one after the other. -/
def EntryOutline.allTokens (header : Option Header) : List EntryOutline → List Token
  | [] => []
  | e :: rest => e.tokens header ++ EntryOutline.allTokens header rest

end

/-- A field can be written: its name and its kind are words under the header, and its numbers are read
back. -/
structure WrittenField.IsLegible (header : Option Header) (f : WrittenField) : Prop where
  name : IsIdentifier header f.name
  kind : f.own = true → (Keyword.kind f.value.kind).isEnabled header = true
  value : f.value.kind.type ≠ .node → f.value.ReadsBack

/-- A node can be written. -/
structure Node.IsLegible (header : Option Header) (n : Node) : Prop where
  typeName : IsIdentifier header n.typeName
  fields : ∀ f ∈ n.written, f.IsLegible header

mutual

theorem NodeOutline.Tells.suffix {before after : List NodeId} {o : NodeOutline} {target : Option NodeId}
    (h : o.Tells w names before target after) : before <:+ after :=
  match h with
  | .null _ => List.suffix_refl _
  | .use _ _ _ => List.suffix_refl _
  | .declare _ _ _ _ _ hentries => (List.suffix_cons _ _).trans hentries.suffix

theorem EntryOutline.TellAll.suffix {before after : List NodeId} {es : List EntryOutline}
    {fs : List WrittenField} (h : EntryOutline.TellAll w names before es fs after) : before <:+ after :=
  match h with
  | .nil _ => List.suffix_refl _
  | .value _ _ hrest => hrest.suffix
  | .node _ _ _ _ hnode hrest => hnode.suffix.trans hrest.suffix
  | .nodes _ _ _ hnodes hrest => hnodes.suffix.trans hrest.suffix

theorem NodeOutline.TellAll.suffix {before after : List NodeId} {os : List NodeOutline}
    {ids : List NodeId} (h : NodeOutline.TellAll w names before os ids after) : before <:+ after :=
  match h with
  | .nil _ => List.suffix_refl _
  | .cons hnode hrest => hnode.suffix.trans hrest.suffix

end

/-! ### The text of an outline -/

variable {rest : List Char}

theorem tokensOf_newline (depth : Nat) (cs : List Char) :
    tokensOf header ((Text.newline depth).toList ++ cs) = tokensOf header cs := by
  have hblanks : ∀ k, tokensOf header (List.replicate k ' ' ++ cs) = tokensOf header cs := by
    intro k
    induction k with
    | zero => rfl
    | succ k ih => exact (tokensOf_separator (by decide) _).trans ih
  have hnewline : (Text.newline depth).toList = '\n' :: List.replicate (2 * depth) ' ' := by
    simp [Text.newline, Text.indent]
  rw [hnewline, List.cons_append, tokensOf_separator (by decide), hblanks]

theorem loose_newline (depth : Nat) (cs : List Char) : Loose ((Text.newline depth).toList ++ cs) := by
  rw [Text.newline, String.toList_append]
  exact .of_ne (by decide)

/-- The tokens in front of the value of a field. -/
def WrittenField.labelTokens (f : WrittenField) : List Token :=
  (if f.own then [.keyword (.kind f.value.kind)] else []) ++ [.identifier f.name]

theorem WrittenField.IsLegible.tokensOf_label {f : WrittenField} (h : f.IsLegible header)
    (hrest : Loose rest) :
    tokensOf header (f.label.toList ++ rest) = f.labelTokens ++ tokensOf header rest := by
  have hname := tokensOf_identifier h.name hrest.wordPart
  cases hown : f.own with
  | false => rw [label, labelTokens, hown, if_neg Bool.false_ne_true, hname]; rfl
  | true =>
    have hlabel : f.label.toList = (Keyword.kind f.value.kind).word.toList ++ ' ' :: f.name.toList := by
      rw [label, hown, if_pos rfl]
      change (f.value.kind.keyword ++ " " ++ f.name).toList = _
      rw [String.toList_append, String.toList_append, List.append_assoc]
      rfl
    rw [hlabel, List.append_assoc, List.cons_append,
      tokensOf_keyword (h.kind hown) (Loose.of_ne (by decide)).wordPart,
      tokensOf_separator (by decide), hname, labelTokens, hown, if_pos rfl]
    rfl

theorem WrittenField.IsLegible.tokensOf_label_nil {f : WrittenField} (h : f.IsLegible header) :
    tokensOf header f.label.toList = f.labelTokens := by
  have hnil : Loose [] := rfl
  simpa using h.tokensOf_label hnil

theorem tokensOf_space (cs : List Char) : tokensOf header (" ".toList ++ cs) = tokensOf header cs :=
  tokensOf_separator (by decide) cs

/-- Nothing runs on into a text that starts with a blank or a sign. -/
theorem loose_append {s : String} (hs : (s.toList.head?.any fun c => !(isWordPart c || c == '.')) = true)
    (cs : List Char) : Loose (s.toList ++ cs) := by
  cases h : s.toList with
  | nil => rw [h] at hs; cases hs
  | cons c r =>
    rw [h] at hs
    exact .of_ne (by simpa using hs)

theorem loose_space (cs : List Char) : Loose (" ".toList ++ cs) := loose_append (by decide) cs

theorem loose_linesText_entries {es : List EntryOutline} {depth : Nat} (hrest : Loose rest) :
    Loose ((EntryOutline.linesText depth es).toList ++ rest) := by
  cases es with
  | nil => exact hrest
  | cons e es =>
    rw [EntryOutline.linesText, String.toList_append, String.toList_append, List.append_assoc,
      List.append_assoc]
    exact loose_newline depth _

theorem loose_linesText_nodes {os : List NodeOutline} {depth : Nat} (hrest : Loose rest) :
    Loose ((NodeOutline.linesText depth os).toList ++ rest) := by
  cases os with
  | nil => exact hrest
  | cons o os =>
    rw [NodeOutline.linesText, String.toList_append, String.toList_append, List.append_assoc,
      List.append_assoc]
    exact loose_newline depth _

/-- A keyword with a blank behind it. -/
theorem tokensOf_keyword_space {k : Keyword} {s : String} (hs : s.toList = k.word.toList ++ [' '])
    (hk : k.isEnabled header = true) (cs : List Char) :
    tokensOf header (s.toList ++ cs) = .keyword k :: tokensOf header cs := by
  rw [hs, List.append_assoc, List.singleton_append, tokensOf_keyword hk (Loose.of_ne (by decide)).wordPart,
    tokensOf_separator (by decide)]

/-- The brace or bracket behind a word and a blank. -/
theorem tokensOf_space_symbol {c : Symbol} {s : String} (hs : s.toList = [' ', c.char])
    (hc : c ≠ .dot) (cs : List Char) :
    tokensOf header (s.toList ++ cs) = .symbol c :: tokensOf header cs := by
  rw [hs, List.cons_append, List.singleton_append, tokensOf_separator (by decide),
    tokensOf_symbol c fun h => absurd h hc]

theorem NodeNames.mem_of_name? {id : NodeId} {name : String} (h : names.name? id = some name) :
    (id, name) ∈ names := by
  obtain ⟨e, he, rfl⟩ := Option.map_eq_some_iff.1 h
  have hid : e.1 = id := by simpa using List.find?_some he
  rw [← hid]
  exact List.mem_of_find?_eq_some he

mutual

/-- **The text of an outline is lexed into its tokens**, by induction on how it tells of nodes. -/
theorem NodeOutline.Tells.tokensOf_text {before after : List NodeId} {o : NodeOutline}
    {target : Option NodeId} (h : o.Tells w names before target after)
    (hnames : ∀ e ∈ names, IsIdentifier header e.2)
    (hlegible : ∀ id ∈ after, ∀ n, w.node? id = some n → n.IsLegible header) (depth : Nat)
    {rest : List Char} (hrest : Loose rest) :
    tokensOf header ((o.text depth).toList ++ rest) = o.tokens header ++ tokensOf header rest :=
  match h with
  | .null _ => tokensOf_keyword (k := .null) rfl hrest.wordPart
  | .use name _ hname => by
    have huse : tokensOf header ("USE ".toList ++ (name.toList ++ rest)) =
        .keyword .use :: tokensOf header (name.toList ++ rest) :=
      tokensOf_keyword_space (by decide) rfl _
    have hidentifier := hnames _ (NodeNames.mem_of_name? hname)
    rw [NodeOutline.text, String.toList_append, List.append_assoc, huse,
      tokensOf_identifier hidentifier hrest.wordPart]
    rfl
  | .declare id n es _ hn hentries => by
    have hn := hlegible id (hentries.suffix.subset List.mem_cons_self) n hn
    have hclose : ∀ cs, tokensOf header ("\x7d".toList ++ cs) = .symbol .nodeEnd :: tokensOf header cs :=
      fun cs => tokensOf_symbol .nodeEnd nofun
    -- an empty body is closed on the same line
    have hend : tokensOf header ((if es.isEmpty then " " else Text.newline depth).toList ++
        ("\x7d".toList ++ rest)) = .symbol .nodeEnd :: tokensOf header rest := by
      split
      · rw [tokensOf_space, hclose]
      · rw [tokensOf_newline, hclose]
    have hloose : Loose ((if es.isEmpty then " " else Text.newline depth).toList ++
        ("\x7d".toList ++ rest)) := by
      split
      · exact loose_space _
      · exact loose_newline _ _
    have hbody : tokensOf header (n.typeName.toList ++ (" \x7b".toList ++
        ((EntryOutline.linesText (depth + 1) es).toList ++
          ((if es.isEmpty then " " else Text.newline depth).toList ++ ("\x7d".toList ++ rest))))) =
        .identifier n.typeName :: .symbol .nodeBegin ::
          (EntryOutline.allTokens header es ++ .symbol .nodeEnd :: tokensOf header rest) := by
      rw [tokensOf_identifier hn.typeName (loose_append (by decide) _).wordPart,
        tokensOf_space_symbol (c := .nodeBegin) (by decide) nofun,
        hentries.tokensOf_lines hnames hlegible hn.fields (depth + 1) hloose, hend]
    rw [NodeOutline.text]
    simp only [String.toList_append, List.append_assoc, NodeOutline.tokens, List.cons_append]
    -- the name, if there is one, stands before the type
    cases hname : names.name? id with
    | none =>
      simp only [Option.elim_none, List.nil_append]
      exact hbody
    | some name =>
      have hidentifier := hnames _ (NodeNames.mem_of_name? hname)
      have hdefine : ∀ cs, tokensOf header ("DEF ".toList ++ cs) = .keyword .define :: tokensOf header cs :=
        tokensOf_keyword_space (by decide) rfl
      simp only [Option.elim_some, String.toList_append, List.append_assoc]
      rw [hdefine, tokensOf_identifier hidentifier (loose_space _).wordPart, tokensOf_space, hbody]
      rfl

theorem EntryOutline.TellAll.tokensOf_lines {before after : List NodeId} {es : List EntryOutline}
    {fs : List WrittenField} (h : EntryOutline.TellAll w names before es fs after)
    (hnames : ∀ e ∈ names, IsIdentifier header e.2)
    (hlegible : ∀ id ∈ after, ∀ n, w.node? id = some n → n.IsLegible header)
    (hfields : ∀ f ∈ fs, f.IsLegible header) (depth : Nat) {rest : List Char} (hrest : Loose rest) :
    tokensOf header ((EntryOutline.linesText depth es).toList ++ rest) =
      EntryOutline.allTokens header es ++ tokensOf header rest :=
  match h with
  | .nil _ => rfl
  | .value f ht hrest' => by
    have hf := hfields f List.mem_cons_self
    have hlines := hrest'.tokensOf_lines hnames hlegible
      (fun g hg => hfields g (List.mem_cons_of_mem _ hg)) depth hrest
    simp only [EntryOutline.linesText, EntryOutline.text, EntryOutline.allTokens, EntryOutline.tokens,
      String.toList_append, List.append_assoc]
    rw [tokensOf_newline, hf.tokensOf_label (loose_space _), tokensOf_space,
      Field.tokensOf_spell ht (hf.value ht) (loose_linesText_entries hrest), hlines,
      hf.tokensOf_label_nil]
  | .node f o es ht hnode hrest' => by
    have hf := hfields f List.mem_cons_self
    have hlines := hrest'.tokensOf_lines hnames hlegible
      (fun g hg => hfields g (List.mem_cons_of_mem _ hg)) depth hrest
    have hloose : Loose ((EntryOutline.linesText depth es).toList ++ rest) := loose_linesText_entries hrest
    have hnode := hnode.tokensOf_text hnames (fun id hid => hlegible id (hrest'.suffix.subset hid)) depth
      hloose
    simp only [EntryOutline.linesText, EntryOutline.text, EntryOutline.allTokens, EntryOutline.tokens,
      String.toList_append, List.append_assoc]
    rw [tokensOf_newline, hf.tokensOf_label (loose_space _), tokensOf_space, hnode, hlines,
      hf.tokensOf_label_nil]
  | .nodes f os ht hnodes hrest' => by
    have hf := hfields f List.mem_cons_self
    have hlines := hrest'.tokensOf_lines hnames hlegible
      (fun g hg => hfields g (List.mem_cons_of_mem _ hg)) depth hrest
    have hclose : ∀ cs, tokensOf header ("]".toList ++ cs) = .symbol .listEnd :: tokensOf header cs :=
      fun cs => tokensOf_symbol .listEnd nofun
    -- an empty list is closed on the same line
    have hend : ∀ cs, tokensOf header ((if os.isEmpty then "" else Text.newline depth).toList ++
        ("]".toList ++ cs)) = .symbol .listEnd :: tokensOf header cs := by
      intro cs
      split
      · exact hclose cs
      · rw [tokensOf_newline, hclose]
    have hloose : ∀ cs, Loose ((if os.isEmpty then "" else Text.newline depth).toList ++
        ("]".toList ++ cs)) := by
      intro cs
      split
      · exact loose_append (s := "]") (by decide) _
      · exact loose_newline _ _
    simp only [EntryOutline.linesText, EntryOutline.text, EntryOutline.allTokens, EntryOutline.tokens,
      String.toList_append, List.append_assoc, List.cons_append]
    rw [tokensOf_newline, hf.tokensOf_label (loose_append (by decide) _),
      tokensOf_space_symbol (c := .listBegin) (by decide) nofun,
      hnodes.tokensOf_lines hnames (fun id hid => hlegible id (hrest'.suffix.subset hid)) (depth + 1)
        (hloose _), hend, hlines, hf.tokensOf_label_nil]
    rfl

theorem NodeOutline.TellAll.tokensOf_lines {before after : List NodeId} {os : List NodeOutline}
    {ids : List NodeId} (h : NodeOutline.TellAll w names before os ids after)
    (hnames : ∀ e ∈ names, IsIdentifier header e.2)
    (hlegible : ∀ id ∈ after, ∀ n, w.node? id = some n → n.IsLegible header) (depth : Nat)
    {rest : List Char} (hrest : Loose rest) :
    tokensOf header ((NodeOutline.linesText depth os).toList ++ rest) =
      NodeOutline.allTokens header os ++ tokensOf header rest :=
  match h with
  | .nil _ => rfl
  | .cons hnode hrest' => by
    rw [NodeOutline.linesText, String.toList_append, String.toList_append, List.append_assoc,
      List.append_assoc, tokensOf_newline,
      hnode.tokensOf_text hnames (fun id hid => hlegible id (hrest'.suffix.subset hid)) depth
        (loose_linesText_nodes hrest), hrest'.tokensOf_lines hnames hlegible depth hrest,
      NodeOutline.allTokens, List.append_assoc]

end

end SceneGraph
