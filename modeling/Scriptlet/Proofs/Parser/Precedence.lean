import Mathlib.Data.List.Permutation
import Mathlib.Data.List.TakeWhile
import Scriptlet.Proofs.Parser.Completeness

/-!
# Operator trees

The tree of operands with binary operators between them, said without climbing: the operators are
ranked by `levels`, and the tree is split at the last of the loosest ones, with the two sides built
the same way (`splitTree`). `grouped_eq_splitTree` shows that taking what binds tighter to the right
and going on gives this tree. An operand is a primary expression with calls, indices and members
applied to it one after the other, and unary operators around the whole (`Factor.tree`).
`nested_series` says that the parser of expressions reads any such series and gives its tree.
-/

namespace Scriptlet

namespace Grammar

/-- The binary operators by how tightly they bind, the loosest first. -/
def levels : List (List Kind) :=
  [[.assign], [.equal, .notEqual], [.less, .lessEqual, .greater, .greaterEqual], [.plus, .minus],
    [.asterisk, .slash, .percent]]

end Grammar

/-- The level of a binary operator. -/
def Kind.level (kind : Kind) : Nat :=
  Grammar.levels.findIdx (·.contains kind)

/-- The binary operators are those that have a level. -/
theorem Kind.isBinary_iff_mem_levels (kind : Kind) :
    kind.isBinary = true ↔ kind ∈ Grammar.levels.flatten := by
  cases kind <;> decide

/-- The power of an operator is its level. -/
theorem Kind.power_eq_level {kind : Kind} (h : kind.isBinary = true) :
    kind.power = kind.level + 1 := by
  revert h
  cases kind <;> decide

namespace Grammar

section Splitting

/-- The level of the operator of a link. -/
def level (link : Token × Node) : Nat :=
  link.1.kind.level

/-- The last of the links with the loosest operators, between the links before and behind it. -/
def lastLoosest : List (Token × Node) →
    Option (List (Token × Node) × (Token × Node) × List (Token × Node))
  | [] => none
  | link :: links =>
      match lastLoosest links with
      | none => some ([], link, links)
      | some (before, found, behind) =>
          if level link < level found then
            some ([], link, links)
          else
            some (link :: before, found, behind)

variable {links before behind : List (Token × Node)} {found : Token × Node}

/-- There is a loosest operator unless there are none. -/
theorem lastLoosest_eq_none (h : lastLoosest links = none) : links = [] := by
  cases links with
  | nil => rfl
  | cons link links =>
      rw [lastLoosest] at h
      split at h
      · cases h
      · split at h <;> cases h

/-- No link is looser than the found one, and those behind it are all tighter. -/
theorem lastLoosest_eq_some (h : lastLoosest links = some (before, found, behind)) :
    links = before ++ found :: behind ∧ (∀ link ∈ before, level found ≤ level link) ∧
      ∀ link ∈ behind, level found < level link := by
  induction links generalizing before found behind with
  | nil => cases h
  | cons link links ih =>
      rw [lastLoosest] at h
      split at h
      case h_1 hnone =>
          cases h
          rw [lastLoosest_eq_none hnone]
          exact ⟨rfl, nofun, nofun⟩
      case h_2 first loosest rest hsome =>
          obtain ⟨hlinks, hfirst, hrest⟩ := ih hsome
          split at h
          next hless =>
              cases h
              refine ⟨rfl, nofun, fun other hother => ?_⟩
              rw [hlinks, List.mem_append, List.mem_cons] at hother
              rcases hother with hother | rfl | hother
              · exact Nat.lt_of_lt_of_le hless (hfirst other hother)
              · exact hless
              · exact Nat.lt_trans hless (hrest other hother)
          next hge =>
              cases h
              refine ⟨by rw [hlinks, List.cons_append], ?_, hrest⟩
              exact List.forall_mem_cons.2 ⟨Nat.le_of_not_lt hge, hfirst⟩

/-- The node of an operand and the operators and operands behind it, split at the last of the
loosest operators. -/
def splitTree (first : Node) (links : List (Token × Node)) : Node :=
  match _h : lastLoosest links with
  | none => first
  | some (before, (operator, right), behind) =>
      applied operator (splitTree first before) (splitTree right behind)
termination_by links.length
decreasing_by
  all_goals
    rw [(lastLoosest_eq_some _h).1, List.length_append, List.length_cons]
    omega

/-- A run that must end at some link ends there or before. -/
theorem cut_append {power : Nat} (h : binds power found = false)
    (before behind : List (Token × Node)) :
    (before ++ found :: behind).takeWhile (binds power) = before.takeWhile (binds power) ∧
      (before ++ found :: behind).dropWhile (binds power) =
        before.dropWhile (binds power) ++ found :: behind := by
  induction before with
  | nil => simp [h]
  | cons link before ih =>
      cases hlink : binds power link with
      | true => simp [hlink, ih]
      | false => simp [hlink]

/-- A link that binds no tighter than the ones before it, and looser than the ones behind it, is
applied last. -/
theorem grouped_append {operator : Token} {right : Node}
    (hbehind : ∀ link ∈ behind, binds operator.kind.power link = true) (first : Node) :
    ∀ before, (∀ link ∈ before, operator.kind.power ≤ link.1.kind.power) →
      grouped first (before ++ (operator, right) :: behind) =
        applied operator (grouped first before) (grouped right behind)
  | [], _ => by
      rw [List.nil_append, grouped, grouped, List.takeWhile_eq_self_iff.2 hbehind,
        List.dropWhile_eq_nil_iff.2 hbehind, grouped]
  | (earlier, node) :: before, hbefore => by
      obtain ⟨hearlier, hbefore⟩ := List.forall_mem_cons.1 hbefore
      have hloose : binds earlier.kind.power (operator, right) = false :=
        decide_eq_false (Nat.not_lt_of_ge hearlier)
      -- What the earlier operator takes to its right ends before the link.
      obtain ⟨htake, hdrop⟩ := cut_append hloose before behind
      have hsub : (before.dropWhile (binds earlier.kind.power)).Sublist before :=
        List.dropWhile_sublist _
      rw [List.cons_append, grouped, grouped, htake, hdrop]
      exact grouped_append hbehind _ _ fun link hlink => hbefore link (hsub.subset hlink)
termination_by before => before.length
decreasing_by exact Nat.lt_succ_of_le hsub.length_le

/-- Taking what binds tighter to the right gives the tree that is split at the loosest operators. -/
theorem grouped_eq_splitTree (first : Node)
    (h : ∀ link ∈ links, link.1.kind.isBinary = true) :
    grouped first links = splitTree first links := by
  fun_induction splitTree first links with
  | case1 first links hnone => rw [lastLoosest_eq_none hnone, grouped]
  | case2 first links before operator right behind hsome ihbefore ihbehind =>
      -- The found operator is applied last: none before it is looser, all behind it are tighter.
      obtain ⟨rfl, hbefore, hbehind⟩ := lastLoosest_eq_some hsome
      obtain ⟨hfirst, hlast⟩ := List.forall_mem_append.1 h
      obtain ⟨hfound, hrest⟩ := List.forall_mem_cons.1 hlast
      rw [← ihbefore hfirst, ← ihbehind hrest]
      refine grouped_append (fun link hlink => ?_) first before fun link hlink => ?_
      · rw [binds, Kind.power_eq_level hfound, Kind.power_eq_level (hrest link hlink),
          decide_eq_true_iff]
        exact Nat.succ_lt_succ (hbehind link hlink)
      · rw [Kind.power_eq_level hfound, Kind.power_eq_level (hfirst link hlink)]
        exact Nat.succ_le_succ (hbefore link hlink)

end Splitting

/-- What is applied to an expression from behind. -/
inductive Suffix where
  | call (paren : Token) (arguments : List Node)
  | index (bracket : Token) (position : Node)
  | member (dot name : Token)

/-- The application of a suffix. -/
def Suffix.apply (target : Node) : Suffix → Node
  | call paren arguments => .call (some paren) target arguments
  | index bracket position => .index (some bracket) target position
  | member dot name => .member (some dot) target (.identifier (some name) name.text)

/-- An operand: unary operators, a primary expression, and what is applied to it. -/
structure Factor where
  signs : List Token
  primary : Node
  suffixes : List Suffix

/-- The node of an operand. The suffixes are applied from left to right, and the unary operators to
what that gives, the nearest one first. -/
def Factor.tree (factor : Factor) : Node :=
  factor.signs.foldr (fun sign operand => .unary (some sign) sign.text operand)
    (factor.suffixes.foldl Suffix.apply factor.primary)

/-- Operands with binary operators between them. -/
structure Series where
  first : Factor
  links : List (Token × Factor)

/-- The node of a series. -/
def Series.tree (series : Series) : Node :=
  splitTree series.first.tree (series.links.map fun link => (link.1, link.2.tree))

section Spelling

variable (literal : Token → Prop)

/-- The tokens begin with the suffixes, and `rest` follows. -/
inductive Suffix.Spelling : List Token → List Token → List Suffix → Prop where
  | nil {rest} : Spelling rest rest []
  | call {paren close tokens middle rest arguments suffixes} :
      paren.kind = .openParen → Items (Expression literal) tokens (close :: middle) arguments →
      close.kind = .closeParen → Spelling middle rest suffixes →
      Spelling (paren :: tokens) rest (.call paren arguments :: suffixes)
  | index {bracket close tokens middle rest position suffixes} :
      bracket.kind = .openBracket → Expression literal tokens (close :: middle) position →
      close.kind = .closeBracket → Spelling middle rest suffixes →
      Spelling (bracket :: tokens) rest (.index bracket position :: suffixes)
  | member {dot name middle rest suffixes} :
      dot.kind = .dot → name.kind = .ident → Spelling middle rest suffixes →
      Spelling (dot :: name :: middle) rest (.member dot name :: suffixes)

/-- The tokens begin with the operand, and `rest` follows. -/
inductive Factor.Spelling : List Token → List Token → Factor → Prop where
  | signed {signs tokens middle rest primary suffixes} :
      (∀ sign ∈ signs, sign.kind = .bang ∨ sign.kind = .minus) →
      Primary literal tokens middle primary → Suffix.Spelling literal middle rest suffixes →
      Spelling (signs ++ tokens) rest ⟨signs, primary, suffixes⟩

/-- The tokens begin with binary operators and operands in turn, and `rest` follows. -/
inductive Series.Links : List Token → List Token → List (Token × Factor) → Prop where
  | nil {rest} : Links rest rest []
  | cons {operator tokens middle rest right links} :
      operator.kind ∈ levels.flatten → Factor.Spelling literal tokens middle right →
      Links middle rest links → Links (operator :: tokens) rest ((operator, right) :: links)

/-- The tokens begin with the series, and `rest` follows. -/
inductive Series.Spelling : List Token → List Token → Series → Prop where
  | joined {tokens middle rest first links} :
      Factor.Spelling literal tokens middle first → Links literal middle rest links →
      Spelling tokens rest ⟨first, links⟩

end Spelling

section Trees

variable {literal : Token → Prop}

/-- The suffixes of an operand are what the grammar applies to it. -/
theorem postfixes_of_suffixes : ∀ {target tokens rest suffixes},
    Suffix.Spelling literal tokens rest suffixes →
    Postfixes literal target tokens rest (suffixes.foldl Suffix.apply target)
  | _, _, _, _, .nil => .nil
  | _, _, _, _, .call hparen harguments hclose hmore =>
      .call hparen harguments hclose (postfixes_of_suffixes hmore)
  | _, _, _, _, .index hbracket hposition hclose hmore =>
      .index hbracket hposition hclose (postfixes_of_suffixes hmore)
  | _, _, _, _, .member hdot hname hmore => .member hdot hname (postfixes_of_suffixes hmore)

/-- What stands behind an operand is a list of suffixes. -/
theorem suffixes_of_postfixes : ∀ {target tokens rest node},
    Postfixes literal target tokens rest node →
    ∃ suffixes, Suffix.Spelling literal tokens rest suffixes ∧
      node = suffixes.foldl Suffix.apply target
  | _, _, _, _, .call hparen harguments hclose hmore =>
      have ⟨_, hsuffixes, hnode⟩ := suffixes_of_postfixes hmore
      ⟨_, .call hparen harguments hclose hsuffixes, hnode⟩
  | _, _, _, _, .index hbracket hposition hclose hmore =>
      have ⟨_, hsuffixes, hnode⟩ := suffixes_of_postfixes hmore
      ⟨_, .index hbracket hposition hclose hsuffixes, hnode⟩
  | _, _, _, _, .member hdot hname hmore =>
      have ⟨_, hsuffixes, hnode⟩ := suffixes_of_postfixes hmore
      ⟨_, .member hdot hname hsuffixes, hnode⟩
  | _, _, _, _, .nil => ⟨[], .nil, rfl⟩

theorem operand_of_factor {tokens rest : List Token} {factor : Factor}
    (h : factor.Spelling literal tokens rest) : Operand literal tokens rest factor.tree := by
  cases h with
  | @signed signs tokens middle _ primary suffixes hsigns hprimary hsuffixes =>
      induction signs with
      | nil => exact .primary hprimary (postfixes_of_suffixes hsuffixes)
      | cons sign signs ih =>
          obtain ⟨hsign, hsigns⟩ := List.forall_mem_cons.1 hsigns
          exact .unary hsign (ih hsigns)

/-- An operand is a factor. -/
theorem factor_of_operand : ∀ {tokens rest node}, Operand literal tokens rest node →
    ∃ factor : Factor, factor.Spelling literal tokens rest ∧ node = factor.tree
  | _, _, _, .primary hprimary hpostfixes => by
      obtain ⟨suffixes, hsuffixes, rfl⟩ := suffixes_of_postfixes hpostfixes
      have hfactor : Factor.Spelling literal ([] ++ _) _ ⟨[], _, suffixes⟩ :=
        .signed (List.forall_mem_nil _) hprimary hsuffixes
      exact ⟨_, hfactor, rfl⟩
  | _, _, _, .unary hsign hoperand => by
      obtain ⟨⟨signs, primary, suffixes⟩, hfactor, rfl⟩ := factor_of_operand hoperand
      cases hfactor with
      | signed hsigns hprimary hsuffixes =>
          exact ⟨_, .signed (List.forall_mem_cons.2 ⟨hsign, hsigns⟩) hprimary hsuffixes, rfl⟩

theorem links_of_series : ∀ {tokens rest links}, Series.Links literal tokens rest links →
    Links literal tokens rest (links.map fun link => (link.1, link.2.tree))
  | _, _, _, .nil => .nil
  | _, _, _, .cons hoperator hright hlinks =>
      .cons ((Kind.isBinary_iff_mem_levels _).2 hoperator) (operand_of_factor hright)
        (links_of_series hlinks)

/-- Linked operands are the factors of a series. -/
theorem series_of_links : ∀ {tokens rest links}, Links literal tokens rest links →
    ∃ factors, Series.Links literal tokens rest factors ∧
      links = factors.map fun link => (link.1, link.2.tree)
  | _, _, _, .cons hoperator hright hlinks => by
      obtain ⟨factor, hfactor, rfl⟩ := factor_of_operand hright
      obtain ⟨factors, hfactors, rfl⟩ := series_of_links hlinks
      exact ⟨(_, factor) :: factors,
        .cons ((Kind.isBinary_iff_mem_levels _).1 hoperator) hfactor hfactors, rfl⟩
  | _, _, _, .nil => ⟨[], .nil, rfl⟩

/-- An expression of the grammar is a series with its tree. -/
theorem expression_iff_series {tokens rest : List Token} {node : Node} :
    Expression literal tokens rest node ↔
      ∃ series : Series, series.Spelling literal tokens rest ∧ node = series.tree := by
  constructor
  · intro h
    cases h with
    | links hfirst hlinks =>
        obtain ⟨first, hfactor, rfl⟩ := factor_of_operand hfirst
        obtain ⟨links, hseries, rfl⟩ := series_of_links hlinks
        exact ⟨⟨first, links⟩, .joined hfactor hseries,
          grouped_eq_splitTree _ hlinks.isBinary⟩
  · intro h
    obtain ⟨series, hseries, rfl⟩ := h
    cases hseries with
    | joined hfirst hlinks =>
        have hlinks := links_of_series hlinks
        rw [Series.tree, ← grouped_eq_splitTree _ hlinks.isBinary]
        exact .links (operand_of_factor hfirst) hlinks

end Trees

end Grammar

namespace Parser

open Grammar

/-- A series of operands and operators before a token that does not extend it is read to its end,
without an error, as the tree split at the loosest operators. So it is in parentheses, which add
nothing to the tree, and the expressions inside the brackets of its operands are series again. -/
theorem nested_series (series : Series) (tokens rest : List Token) (bound : Nat) (last : Kind)
    (errors : List SyntaxError) (hseries : series.Spelling Readable tokens rest)
    (hended : Ended rest) (hbound : tokens.length ≤ bound) :
    (∃ finish, nested bound (.expression 0) ⟨last, tokens, errors⟩ =
      .ok series.tree ⟨finish, rest, errors⟩) ∧
    (∀ paren close behind, paren.kind = .openParen → close.kind = .closeParen →
      rest = close :: behind → Ended behind →
      ∃ finish, nested (bound + 1) (.expression 0) ⟨last, paren :: tokens, errors⟩ =
        .ok series.tree ⟨finish, behind, errors⟩) ∧
    ∀ inner behind node, Expression Readable inner behind node ↔
      ∃ other : Series, other.Spelling Readable inner behind ∧ node = other.tree := by
  have hexpression : Expression Readable tokens rest series.tree :=
    expression_iff_series.2 ⟨series, hseries, rfl⟩
  have hfits : Fits Readable bound tokens := ⟨hbound, fun _ _ _ hreadable => hreadable⟩
  refine ⟨?_, ?_, fun _ _ _ => expression_iff_series⟩
  · exact (nested_complete bound).expression hfits hexpression hended last errors
  · intro paren close behind hparen hclose hrest hbehind
    subst hrest
    have hgroup : Expression Readable (paren :: tokens) behind (grouped series.tree []) :=
      .links (.primary (.group hparen hexpression hclose) .nil) .nil
    rw [grouped] at hgroup
    have hlonger : Fits Readable (bound + 1) (paren :: tokens) :=
      ⟨Nat.succ_le_succ hbound, fun _ _ _ hreadable => hreadable⟩
    exact (nested_complete (bound + 1)).expression hlonger hgroup hbehind last errors

/-- The minus before a member, then operators of three levels. -/
theorem nested_series_levels :
    let token (kind : Kind) (text : String) : Token := ⟨kind, text, .start⟩
    let name (text : String) : Node := .identifier (some (token .ident text)) text
    let minus := token .minus "-"
    let dot := token .dot "."
    let times := token .asterisk "*"
    let equals := token .assign "="
    let rest := [token .semicolon ";"]
    let tokens := [minus, token .ident "a", dot, token .ident "b", minus, token .ident "c", times,
      token .ident "d", equals, token .ident "e"] ++ rest
    let series : Series := ⟨⟨[minus], name "a", [.member dot (token .ident "b")]⟩,
      [(minus, ⟨[], name "c", []⟩), (times, ⟨[], name "d", []⟩), (equals, ⟨[], name "e", []⟩)]⟩
    series.Spelling Readable tokens rest ∧ Ended rest ∧ tokens.length ≤ 11 ∧
      series.tree = .assign (some equals)
        (.binary (some minus)
          (.unary (some minus) "-" (.member (some dot) (name "a") (name "b"))) "-"
          (.binary (some times) (name "c") "*" (name "d")))
        (name "e") ∧
      ∃ finish, nested 11 (.expression 0) ⟨.eof, tokens, []⟩ =
        .ok series.tree ⟨finish, rest, []⟩ := by
  intro token name minus dot times equals rest tokens series
  have hname (text : String) (behind : List Token) :
      Factor.Spelling Readable ([] ++ token .ident text :: behind) behind ⟨[], name text, []⟩ :=
    .signed (List.forall_mem_nil _) (.identifier rfl) .nil
  have hfirst : series.first.Spelling Readable ([minus] ++ tokens.tail) (tokens.drop 4) :=
    .signed (List.forall_mem_singleton.2 (.inr rfl)) (.identifier rfl) (.member rfl rfl .nil)
  have hlinks : Series.Links Readable (tokens.drop 4) rest series.links :=
    .cons (by decide) (hname "c" _) (.cons (by decide) (hname "d" _)
      (.cons (by decide) (hname "e" _) .nil))
  have hseries : series.Spelling Readable tokens rest := .joined hfirst hlinks
  have hended : Ended rest := ended_of_kind rfl rfl
  have hlength : tokens.length ≤ 11 := by decide
  refine ⟨hseries, hended, hlength, ?_, ?_⟩
  · cbv
  · exact (nested_series series tokens rest 11 .eof [] hseries hended hlength).1

end Parser

end Scriptlet
