import LoxLang.Proofs.Grammar.Correspondence
import LoxLang.Proofs.Lexical.Layout

/-!
# `LoxLang.Proofs.Grammar.Placement`: tokens in other places

A parse keeps the places of tokens in its trees and does nothing else
with them. So the trees of tokens that are the same but for their
places are the same but for these, and where there are none, reading
stops at the same token. Which token that is can be told if each has
its index for a line (`Token.numbered`): the tokens of either list are
those with their own places put in (`Token.placed`).

* `Token.Relocates`: a change of nothing but places;
* `parsedAlike_of_bare`: tokens that are the same but for their places
  are parsed alike.
-/

set_option autoImplicit false

namespace LoxLang

variable {tokens tokens' : List Token} {f : Token → Token}

/-! ### Changing places -/

/-- A change of tokens that changes nothing but their places. -/
def Token.Relocates (f : Token → Token) : Prop :=
  ∀ t, (f t).bare = t.bare

namespace Token.Relocates

theorem kind (h : Relocates f) (t : Token) : (f t).kind = t.kind :=
  show (f t).bare.kind = t.bare.kind by rw [h t]

theorem lexeme (h : Relocates f) (t : Token) : (f t).lexeme = t.lexeme :=
  show (f t).bare.lexeme = t.bare.lexeme by rw [h t]

theorem faithful (h : Relocates f) : Faithful f where
  kind := h.kind
  payload t := show (f t).bare.payload = t.bare.payload by rw [h t]

theorem comp_bare (h : Relocates f) : Token.bare ∘ f = Token.bare :=
  funext h

end Token.Relocates

theorem Token.relocates_bare : Relocates bare :=
  fun _ => rfl

/-! ### Indices for lines -/

/-- Tokens that have their indices for lines. -/
def Token.numbered (tokens : List Token) : List Token :=
  tokens.mapIdx fun i t => { t with line := i, column := none }

/-- A token in the place of the one that its line is the index of. -/
def Token.placed (tokens : List Token) (t : Token) : Token :=
  match tokens[t.line.toNat]? with
  | none => t
  | some place => { t with line := place.line, column := place.column }

theorem Token.relocates_placed (tokens : List Token) : Relocates (placed tokens) := by
  intro t
  rw [placed]
  split <;> rfl

theorem Token.map_placed_numbered (tokens : List Token) :
    (numbered tokens).map (placed tokens) = tokens := by
  refine List.ext_getElem? fun i => ?_
  rw [numbered, List.getElem?_map, List.getElem?_mapIdx]
  cases h : tokens[i]? with
  | none => rfl
  | some t => simp [placed, h]

/-- Places have no part in the numbering. -/
theorem Token.numbered_map_bare (tokens : List Token) :
    numbered (tokens.map bare) = numbered tokens := by
  refine List.ext_getElem? fun i => ?_
  rw [numbered, numbered, List.getElem?_mapIdx, List.getElem?_mapIdx, List.getElem?_map]
  cases tokens[i]? <;> rfl

/-! ### Parsing -/

/-- Two token lists are both programs, with the same trees but for the
places of tokens, or neither is one: something else is expected at the
tokens with some index, and it is the same. -/
inductive ParsedAlike (tokens tokens' : List Token) : Prop where
  | ok {ss ss' : List Stmt} (h : program tokens = .ok ss) (h' : program tokens' = .ok ss')
      (htrees : Stmt.mapAllTokens Token.bare ss = Stmt.mapAllTokens Token.bare ss')
  | error {m m' : Misplaced} (h : program tokens = .error m) (h' : program tokens' = .error m')
      (i : Nat) (hi : tokens[i]? = some m.found) (hi' : tokens'[i]? = some m'.found)
      (hexpected : m.expected = m'.expected)

theorem program_of_numbered {ss : List Stmt} (h : program (Token.numbered tokens) = .ok ss) :
    program tokens = .ok (Stmt.mapAllTokens (Token.placed tokens) ss) := by
  have hmap := program_map (Token.relocates_placed tokens).faithful h
  rwa [Token.map_placed_numbered] at hmap

/-- Where the tokens stop with their indices for lines, they stop with
their own places. -/
theorem program_of_numbered_error {m : Misplaced} {i : Nat}
    (hend : ∃ t ∈ Token.numbered tokens, t.kind = .eof)
    (h : program (Token.numbered tokens) = .error m)
    (hi : (Token.numbered tokens)[i]? = some m.found) :
    ∃ m', program tokens = .error m' ∧ tokens[i]? = some m'.found ∧
      m'.expected = m.expected := by
  have hmap := program_map_error (Token.relocates_placed tokens).faithful hend h
  have hat : ((Token.numbered tokens).map (Token.placed tokens))[i]? =
      some (Token.placed tokens m.found) := by
    rw [List.getElem?_map, hi]
    rfl
  rw [Token.map_placed_numbered] at hmap hat
  exact ⟨_, hmap, hat, rfl⟩

/-- Tokens that are the same but for their places are parsed alike. -/
theorem parsedAlike_of_bare (hend : ∃ t ∈ tokens, t.kind = .eof)
    (hbare : tokens'.map Token.bare = tokens.map Token.bare) : ParsedAlike tokens tokens' := by
  have hnumbered : Token.numbered tokens' = Token.numbered tokens := by
    rw [← Token.numbered_map_bare, hbare, Token.numbered_map_bare]
  cases hprogram : program (Token.numbered tokens) with
  | ok ss =>
    refine .ok (program_of_numbered hprogram) (program_of_numbered (hnumbered ▸ hprogram)) ?_
    rw [Stmt.mapAllTokens_mapAllTokens, Stmt.mapAllTokens_mapAllTokens,
      (Token.relocates_placed tokens).comp_bare, (Token.relocates_placed tokens').comp_bare]
  | error m =>
    have hend' : ∃ t ∈ Token.numbered tokens, t.kind = .eof := by
      rw [← Token.map_placed_numbered tokens] at hend
      simpa [(Token.relocates_placed tokens).kind] using hend
    obtain ⟨i, hi⟩ := List.mem_iff_getElem?.mp (found_mem_of_program hend' hprogram)
    obtain ⟨m₁, h₁, hi₁, hexpected₁⟩ := program_of_numbered_error hend' hprogram hi
    rw [← hnumbered] at hend' hprogram hi
    obtain ⟨m₂, h₂, hi₂, hexpected₂⟩ := program_of_numbered_error hend' hprogram hi
    exact .error h₁ h₂ i hi₁ hi₂ (hexpected₁.trans hexpected₂.symm)

end LoxLang
