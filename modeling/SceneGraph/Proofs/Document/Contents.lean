import Mathlib.Data.List.Forall2
import SceneGraph.Proofs.Document.Values

/-!
# Contents of fields in texts

What `Values` says about one value, for lists of values and for fields that hold no nodes: the text
of a field is lexed into its tokens (`Field.tokensOf_spell`), and these are read as a field of the same
kind and value (`Field.exists_takes_content`).
-/

namespace SceneGraph

open Numeral (Loose)

variable {header : Option Header} {rest : List Char}

/-- The tokens of a list of values. -/
def FieldType.listTokens (t : FieldType) (vs : List t.Carrier) : List Token :=
  .symbol .listBegin :: (vs.flatMap t.tokens ++ [.symbol .listEnd])

namespace Field

/-- The tokens of a field that holds no nodes. -/
def tokens : Field → List Token
  | ⟨⟨t, .single⟩, v, _⟩ => t.tokens v
  | ⟨⟨t, .multi⟩, vs, _⟩ => t.listTokens vs

/-- The numbers in a field are read back from their texts. -/
def ReadsBack (f : Field) : Prop := ∀ v ∈ f.values, f.kind.type.readsBack v = true

instance (f : Field) : Decidable f.ReadsBack :=
  inferInstanceAs (Decidable (∀ v ∈ f.values, f.kind.type.readsBack v = true))

/-- The rotations in a field have axes that stay the same when they are brought to length one. -/
def IsSteady (f : Field) : Prop := ∀ v ∈ f.values, f.kind.type.isSteady v = true

instance (f : Field) : Decidable f.IsSteady :=
  inferInstanceAs (Decidable (∀ v ∈ f.values, f.kind.type.isSteady v = true))

/-- The colors in a field lie in the unit interval. -/
def IsClamped (f : Field) : Prop := ∀ v ∈ f.values, f.kind.type.IsClamped v

end Field

/-! ### Tokens -/

theorem FieldType.tokensOf_values {t : FieldType} (ht : t ≠ .node) {vs : List t.Carrier} (hne : vs ≠ [])
    (h : ∀ v ∈ vs, t.readsBack v = true) (hrest : Loose rest) :
    tokensOf header ((", ".intercalate (vs.map t.spell)).toList ++ rest) =
      vs.flatMap t.tokens ++ tokensOf header rest := by
  induction vs with
  | nil => exact absurd rfl hne
  | cons v vs ih =>
    have hv := h v List.mem_cons_self
    rw [List.map_cons, List.flatMap_cons, List.append_assoc]
    cases vs with
    | nil => rw [List.map_nil, String.intercalate_singleton, tokensOf_spell ht hv hrest]; rfl
    | cons v' vs =>
      have ih := ih (List.cons_ne_nil _ _) fun u hu => h u (List.mem_cons_of_mem _ hu)
      have hcomma : ", ".toList = [',', ' '] := rfl
      rw [List.map_cons] at ih ⊢
      rw [String.intercalate_cons_cons, String.toList_append, String.toList_append, hcomma,
        List.append_assoc, List.append_assoc, List.cons_append, List.singleton_append,
        tokensOf_spell ht hv (.of_ne (by decide)), tokensOf_separator (by decide),
        tokensOf_separator (by decide), ih]

theorem FieldType.tokensOf_spellList {t : FieldType} (ht : t ≠ .node) {vs : List t.Carrier}
    (h : ∀ v ∈ vs, t.readsBack v = true) :
    tokensOf header ((t.spellList vs).toList ++ rest) = t.listTokens vs ++ tokensOf header rest := by
  have hbegin : ∀ cs, tokensOf header ('[' :: cs) = .symbol .listBegin :: tokensOf header cs :=
    fun cs => tokensOf_symbol .listBegin nofun
  have hend : ∀ cs, tokensOf header (']' :: cs) = .symbol .listEnd :: tokensOf header cs :=
    fun cs => tokensOf_symbol .listEnd nofun
  cases vs with
  | nil =>
    have hspell : (t.spellList []).toList = ['[', ']'] := by simp [spellList]
    rw [hspell, List.cons_append, List.singleton_append, hbegin, hend]
    rfl
  | cons v vs =>
    have hspell : t.spellList (v :: vs) =
        "[ " ++ ", ".intercalate ((v :: vs).map t.spell) ++ " ]" := rfl
    have hopen : "[ ".toList = ['[', ' '] := rfl
    have hclose : " ]".toList = [' ', ']'] := rfl
    rw [hspell, String.toList_append, String.toList_append, hopen, hclose, List.append_assoc,
      List.append_assoc, List.cons_append, List.singleton_append, hbegin, tokensOf_separator (by decide),
      List.cons_append, List.singleton_append,
      tokensOf_values ht (List.cons_ne_nil _ _) h (.of_ne (by decide)), tokensOf_separator (by decide),
      hend, listTokens, List.cons_append, List.append_assoc, List.singleton_append]

/-- **The text of a field that holds no nodes is lexed into its tokens.** -/
theorem Field.tokensOf_spell {f : Field} (ht : f.kind.type ≠ .node) (h : f.ReadsBack)
    (hrest : Loose rest) :
    tokensOf header (f.spell.toList ++ rest) = f.tokens ++ tokensOf header rest := by
  obtain ⟨⟨t, d⟩, v, time⟩ := f
  cases d with
  | single => exact FieldType.tokensOf_spell ht (h v List.mem_cons_self) hrest
  | multi => exact FieldType.tokensOf_spellList ht h

/-! ### Reading -/

theorem isSymbol_of_numeralToken? {s : String} {k : Token} (h : numeralToken? s = some k) (c : Symbol) :
    k.isSymbol c = false := by
  have hnil : Loose [] := rfl
  obtain ⟨n, -, hn⟩ := Numeral.split?_of_numeralToken? h hnil
  rcases Numeral.eq_of_token? hn with ⟨i, rfl⟩ | ⟨x, rfl⟩ <;> rfl

/-- The tokens of a value start with one that closes no list. -/
theorem FieldType.exists_tokens {t : FieldType} {v v' : t.Carrier} (h : t.reread? v = some v') :
    ∃ x ts, t.tokens v = x :: ts ∧ x.isSymbol .listEnd = false := by
  have hreal : ∀ x xs, ∃ k ts, FieldType.realTokens (x :: xs) = k :: ts ∧ k.isSymbol .listEnd = false := by
    intro x xs
    refine ⟨_, _, rfl, ?_⟩
    dsimp only
    cases hx : numeralToken? (Decimal.plain32 x) with
    | none => rfl
    | some k => exact isSymbol_of_numeralToken? hx .listEnd
  cases t with
  | node => cases h
  | boolean => exact ⟨_, _, rfl, rfl⟩
  | int => exact ⟨_, _, rfl, rfl⟩
  | string => exact ⟨_, _, rfl, rfl⟩
  | time =>
    obtain ⟨k, hk, -⟩ := Option.bind_eq_some_iff.1 h
    exact ⟨k, [], by rw [tokens, hk]; rfl, isSymbol_of_numeralToken? hk .listEnd⟩
  | float => exact hreal _ _
  | color => exact hreal _ _
  | rotation => exact hreal _ _
  | vector2 => exact hreal _ _
  | vector3 => exact hreal _ _
  | vector4 => exact hreal _ _
  | matrix3 => exact hreal _ _
  | matrix4 => exact hreal _ _

namespace Reader

variable {ctx : DocumentContext} {node : Reader (Option NodeId)} {t : FieldType}

/-- Values up to the closing bracket are read one by one. -/
theorem takes_items {vs vs' : List t.Carrier} (h : List.Forall₂ (fun v v' => t.reread? v = some v') vs vs')
    {n : Nat} (hn : vs.length < n) :
    Takes (items ctx (value ctx node t) n) (vs.flatMap t.tokens ++ [.symbol .listEnd]) vs' := by
  induction h generalizing n with
  | nil =>
    obtain ⟨n, rfl⟩ := Nat.exists_eq_succ_of_ne_zero (Nat.ne_of_gt hn)
    exact (Takes.optionalSymbol ctx .listEnd).bind (.pure [])
  | @cons v v' vs vs' hv _ ih =>
    obtain ⟨n, rfl⟩ := Nat.exists_eq_succ_of_ne_zero (Nat.ne_of_gt (Nat.zero_lt_of_lt hn))
    obtain ⟨x, ts, htokens, hx⟩ := FieldType.exists_tokens hv
    have hitem : Takes (do return (← value ctx node t) :: (← items ctx (value ctx node t) n))
        (t.tokens v ++ (vs.flatMap t.tokens ++ [.symbol .listEnd])) (v' :: vs') :=
      (takes_value hv).bind ((ih (Nat.lt_of_succ_lt_succ hn)).bind_pure _)
    intro s rest hs
    have hfront : s.tokens = x :: (ts ++ (vs.flatMap t.tokens ++ ([.symbol .listEnd] ++ rest))) := by
      rw [hs, List.flatMap_cons, htokens]
      simp only [List.cons_append, List.append_assoc]
    rw [List.flatMap_cons, List.append_assoc, items, exec_bind_ok (exec_optionalSymbol_false hfront hx)]
    exact hitem s rest (by rw [hs, List.flatMap_cons, List.append_assoc (t.tokens v)])

theorem length_le_flatMap_tokens {vs vs' : List t.Carrier}
    (h : List.Forall₂ (fun v v' => t.reread? v = some v') vs vs') :
    vs.length ≤ (vs.flatMap t.tokens).length := by
  induction h with
  | nil => exact Nat.le_refl _
  | cons hv _ ih =>
    obtain ⟨x, ts, htokens, -⟩ := FieldType.exists_tokens hv
    rw [List.flatMap_cons, htokens, List.length_append]
    simp only [List.length_cons]
    omega

theorem takes_list {vs vs' : List t.Carrier}
    (h : List.Forall₂ (fun v v' => t.reread? v = some v') vs vs') :
    Takes (list ctx (value ctx node t)) (t.listTokens vs) vs' := by
  refine (Takes.optionalSymbol ctx .listBegin).bind ?_
  change Takes _ (vs.flatMap t.tokens ++ [.symbol .listEnd]) vs'
  intro s rest hs
  have hlength : vs.length < s.lexemes.length + 1 := by
    have hle := length_le_flatMap_tokens h
    have hs := congrArg List.length hs
    simp only [ReaderState.tokens, List.length_map, List.length_append] at hs
    omega
  exact takes_items h hlength s rest hs

end Reader

theorem Field.sameValues_of_forall₂ {t : FieldType} {vs vs' : List t.Carrier}
    (h : List.Forall₂ (fun v v' => t.sameValue v v' = true) vs vs') : sameValues t vs vs' = true := by
  induction h with
  | nil => rfl
  | cons hv _ ih => rw [sameValues, hv, ih]; rfl

theorem FieldType.exists_rereadAll {t : FieldType} {vs : List t.Carrier} (ht : t ≠ .node)
    (h : ∀ v ∈ vs, t.readsBack v = true) (hsteady : ∀ v ∈ vs, t.isSteady v = true)
    (hclamped : ∀ v ∈ vs, t.IsClamped v) :
    ∃ vs', List.Forall₂ (fun v v' => t.reread? v = some v' ∧ t.sameValue v v' = true) vs vs' := by
  induction vs with
  | nil => exact ⟨[], .nil⟩
  | cons v vs ih =>
    obtain ⟨v', hv⟩ := exists_reread? ht (h v List.mem_cons_self) (hsteady v List.mem_cons_self)
      (hclamped v List.mem_cons_self)
    obtain ⟨vs', hvs⟩ := ih (fun u hu => h u (List.mem_cons_of_mem _ hu))
      (fun u hu => hsteady u (List.mem_cons_of_mem _ hu)) fun u hu => hclamped u (List.mem_cons_of_mem _ hu)
    exact ⟨v' :: vs', .cons hv hvs⟩

/-- **A field that holds no nodes is read back from its tokens.** -/
theorem Field.exists_takes_content {ctx : DocumentContext} {node : Reader (Option NodeId)} {f : Field}
    (ht : f.kind.type ≠ .node) (h : f.ReadsBack) (hsteady : f.IsSteady) (hclamped : f.IsClamped) :
    ∃ g, Reader.Takes (Reader.content ctx node f.kind) f.tokens g ∧ g.kind = f.kind ∧
      f.sameValue g = true := by
  obtain ⟨⟨t, d⟩, content, time⟩ := f
  cases d with
  | single =>
    obtain ⟨v, hv, hsame⟩ := FieldType.exists_reread? ht (h content List.mem_cons_self)
      (hsteady content List.mem_cons_self) (hclamped content List.mem_cons_self)
    refine ⟨.single t v ctx.time, ?_, rfl, ?_⟩
    · exact (Reader.takes_value hv).bind_pure _
    · change (if h : t = t then t.sameValue (h ▸ content) v else false) = true
      rw [dif_pos rfl]
      exact hsame
  | multi =>
    obtain ⟨vs', hvs⟩ := FieldType.exists_rereadAll ht h hsteady hclamped
    refine ⟨.multi t vs' ctx.time, ?_, rfl, ?_⟩
    · have hcontent : Reader.content ctx node ⟨t, .multi⟩ =
          (do return .multi t (← Reader.list ctx (Reader.value ctx node t)) ctx.time) := by
        cases t <;> first | rfl | exact absurd rfl ht
      rw [hcontent]
      exact (Reader.takes_list (List.Forall₂.imp (fun _ _ h => h.1) hvs)).bind_pure _
    · change (if h : t = t then sameValues t (h ▸ content) vs' else false) = true
      rw [dif_pos rfl]
      exact sameValues_of_forall₂ (List.Forall₂.imp (fun _ _ h => h.2) hvs)

end SceneGraph
