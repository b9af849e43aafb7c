import CompactSql.Proofs.Layout
import CompactSql.Proofs.Token.Spacing
import Mathlib.Data.List.Forall2

/-!
# Other blanks, other letters

The tokens of a text are set anew, with other blanks around them and the letters of
keywords in another case.  As long as tokens that would run together stay apart nothing
changes for a reader; where two of them meet the text has other tokens.
-/

namespace CompactSql

open Grammar (kinds)
open Token (Kind)

/-- What may be written in the place of a slice: a keyword in letters of any case, and
every other token as it was. -/
def Token.Kind.Rewords : Kind → List Char → List Char → Prop
  | .keyword _, slice, slice' => Text.SameLetters slice slice'
  | _, slice, slice' => slice' = slice

/-- The setting is of the kind of the token and takes up its slice of the text. -/
def Setting.Resets (text : List Char) (token : Token) (setting : Setting) : Prop :=
  setting.kind = token.kind ∧
    ∃ slice, Text.slice? text token.span.start token.span.stop = some slice ∧
      token.kind.Rewords slice setting.slice

private theorem Setting.Resets.shaped {text : List Char} {token : Token} {setting : Setting}
    (h : setting.Resets text token) {before piece after : List Char}
    (split : text = before ++ (piece ++ after))
    (span : token.span = ⟨Text.byteLength before, Text.byteLength before + Text.byteLength piece⟩)
    (covers : token.kind.Covers piece) (sound : ∀ cause, token.kind ≠ .fault cause) :
    setting.kind.Shaped setting.slice := by
  obtain ⟨kind, slice, cut, rewords⟩ := h
  have whole := Text.slice?_of_append before piece after split rfl rfl
  rw [span, whole] at cut
  obtain rfl := Option.some.inj cut
  have shaped := covers.shaped sound
  rw [kind]
  cases reserved : token.kind with
  | keyword word =>
      rw [reserved] at shaped rewords
      exact shaped.recase rewords
  | _ =>
      rw [reserved] at shaped rewords
      rwa [rewords]

private theorem Setting.shaped_of_resets {text : List Char} {pieces : List Token}
    {settings : List Setting} (resets : List.Forall₂ (Resets text) pieces settings)
    (covered : ∀ token ∈ pieces, ∃ before piece after, text = before ++ (piece ++ after) ∧
      token.span = ⟨Text.byteLength before, Text.byteLength before + Text.byteLength piece⟩ ∧
      token.kind.Covers piece)
    (sound : ∀ token ∈ pieces, ∀ cause, token.kind ≠ .fault cause) :
    (∀ setting ∈ settings, setting.kind.Shaped setting.slice) ∧
      settings.map Setting.kind = pieces.map Token.kind := by
  induction resets with
  | nil => exact ⟨by simp, rfl⟩
  | @cons token setting pieces settings first _ ih =>
      rw [List.forall_mem_cons] at covered sound
      obtain ⟨before, piece, after, split, span, covers⟩ := covered.1
      obtain ⟨others, same⟩ := ih covered.2 sound.2
      refine ⟨List.forall_mem_cons.mpr
        ⟨first.shaped split span covers sound.1, others⟩, ?_⟩
      rw [List.map_cons, List.map_cons, first.1, same]

/-- The tokens of a text but for the end token, set in a row behind blanks, and with
blanks behind each of them. -/
structure Resetting (text : String) (tokens : List Token) where
  lead : List Char
  settings : List Setting
  lead_blank : ∀ c ∈ lead, Text.isBlank c = true
  gaps_blank : ∀ setting ∈ settings, ∀ c ∈ setting.gap, Text.isBlank c = true
  resets : List.Forall₂ (Setting.Resets text.toList) (tokens.filter (!·.isEof)) settings

namespace Resetting

variable {text : String} {tokens : List Token}

def newText (reset : Resetting text tokens) : String :=
  String.ofList (reset.lead ++ Setting.layOut reset.settings)

private theorem sound (reset : Resetting text tokens) (cut : tokenize text = .ok tokens) :
    (∀ setting ∈ reset.settings, setting.Sound) ∧
      kinds tokens = reset.settings.map Setting.kind ++ [.eof] := by
  obtain ⟨pieces, rfl, tiled, faultless⟩ := tokenize_tiled cut
  have inner {last : Token} (final : last.isEof = true) :
      (pieces ++ [last]).filter (!·.isEof) = pieces := by
    have kept : pieces.filter (!·.isEof) = pieces :=
      List.filter_eq_self.mpr fun token member => by simp [tiled.isEof_eq token member]
    rw [List.filter_append, kept, List.filter_cons_of_neg (by simp [final]), List.filter_nil,
      List.append_nil]
  have resets := reset.resets
  rw [inner rfl] at resets
  obtain ⟨shaped, row⟩ := Setting.shaped_of_resets resets (by simpa using tiled.covers) faultless
  refine ⟨fun setting member => ⟨shaped setting member, reset.gaps_blank setting member⟩, ?_⟩
  rw [row, kinds, List.map_append]
  rfl

end Resetting

variable {text : String} {tokens : List Token}

/-- The tokens of a text may be set with any blanks around them, and keywords in any case,
as long as no two meet that run together.  Where just one pair does, the new text is
refused by the lexer or has other tokens. -/
theorem reading_of_resetting (cut : tokenize text = .ok tokens)
    (reset : Resetting text tokens) :
    (Setting.Parted reset.settings →
      ∃ tokens', tokenize reset.newText = .ok tokens' ∧ kinds tokens' = kinds tokens ∧
        SameReading tokens tokens' (parse text) (parse reset.newText)) ∧
    (Setting.Joined reset.settings →
      (∃ failure, tokenize reset.newText = .error failure ∧ failure.isLexical = true) ∨
        ∃ tokens', tokenize reset.newText = .ok tokens' ∧ kinds tokens' ≠ kinds tokens) := by
  obtain ⟨sounds, split⟩ := reset.sound cut
  have chars : reset.newText.toList = reset.lead ++ Setting.layOut reset.settings :=
    String.toList_ofList
  constructor
  · intro parted
    have behind := Cut.blanks reset.lead_blank (parted.cut sounds)
    rw [← chars] at behind
    obtain ⟨tokens', cut', split'⟩ := tokenize_of_cut behind
    have same := split'.trans split.symm
    exact ⟨tokens', cut', same, readText_layout Relabeling.identity_statement
      (fun _ => Twins.statement_parallel) cut cut' same⟩
  · intro joined
    cases cut' : tokenize reset.newText with
    | error failure =>
        obtain ⟨-, -, -, -, -, -, rfl, -⟩ := tokenize_fault cut'
        exact .inl ⟨_, rfl, rfl⟩
    | ok tokens' =>
        refine .inr ⟨tokens', rfl, ?_⟩
        intro same
        obtain ⟨row, ended, behind⟩ := cut_of_tokenize cut'
        rw [chars] at behind
        -- tokens that run together are one piece, so there are fewer pieces than kinds
        have fewer := joined.length_lt sounds (behind.of_blanks reset.lead_blank)
        rw [same, split] at ended
        rw [← List.append_cancel_right ended, List.length_map] at fewer
        exact Nat.lt_irrefl _ fewer

def quotedSelection : List Token :=
  [⟨.keyword .SELECT, ⟨0, 6⟩⟩, ⟨.string "x", ⟨7, 10⟩⟩, ⟨.comma, ⟨11, 12⟩⟩,
    ⟨.identifier "a", ⟨13, 14⟩⟩, ⟨.keyword .FROM, ⟨15, 19⟩⟩, ⟨.identifier "t", ⟨20, 21⟩⟩,
    ⟨.eof, ⟨21, 21⟩⟩]

def denseSelection : Resetting "SELECT 'x' , a FROM t" quotedSelection where
  lead := ['\t']
  settings :=
    [⟨.keyword .SELECT, "sElEcT".toList, []⟩, ⟨.string "x", "'x'".toList, []⟩,
      ⟨.comma, [','], []⟩, ⟨.identifier "a", ['a'], ['\u2003']⟩,
      ⟨.keyword .FROM, "from".toList, [' ']⟩, ⟨.identifier "t", ['t'], []⟩]
  lead_blank := by simp [Text.isBlank]
  gaps_blank := by simp [Text.isBlank]
  resets := .cons ⟨rfl, _, rfl, rfl⟩ <| .cons ⟨rfl, _, rfl, rfl⟩ <| .cons ⟨rfl, _, rfl, rfl⟩ <|
    .cons ⟨rfl, _, rfl, rfl⟩ <| .cons ⟨rfl, _, rfl, rfl⟩ <| .cons ⟨rfl, _, rfl, rfl⟩ .nil

def joinedSelection : Resetting "SELECT 'x' , a FROM t" quotedSelection where
  lead := []
  settings :=
    [⟨.keyword .SELECT, "SELECT".toList, [' ']⟩, ⟨.string "x", "'x'".toList, [' ']⟩,
      ⟨.comma, [','], [' ']⟩, ⟨.identifier "a", ['a'], []⟩,
      ⟨.keyword .FROM, "FROM".toList, ['\n', ' ']⟩, ⟨.identifier "t", ['t'], []⟩]
  lead_blank := by simp [Text.isBlank]
  gaps_blank := by simp [Text.isBlank]
  resets := .cons ⟨rfl, _, rfl, rfl⟩ <| .cons ⟨rfl, _, rfl, rfl⟩ <| .cons ⟨rfl, _, rfl, rfl⟩ <|
    .cons ⟨rfl, _, rfl, rfl⟩ <| .cons ⟨rfl, _, rfl, rfl⟩ <| .cons ⟨rfl, _, rfl, rfl⟩ .nil

/-- Set densely the selection stays what it is; a name that meets a keyword becomes
another name. -/
theorem reading_of_resetting_selection :
    tokenize "SELECT 'x' , a FROM t" = .ok quotedSelection ∧
      denseSelection.newText = "\tsElEcT'x',a\u2003from t" ∧
      Setting.Parted denseSelection.settings ∧
      (∃ tokens', tokenize denseSelection.newText = .ok tokens' ∧
        kinds tokens' = kinds quotedSelection ∧
        SameReading quotedSelection tokens' (parse "SELECT 'x' , a FROM t")
          (parse denseSelection.newText)) ∧
      joinedSelection.newText = "SELECT 'x' , aFROM\n t" ∧
      Setting.Joined joinedSelection.settings ∧
      ((∃ failure, tokenize joinedSelection.newText = .error failure ∧
          failure.isLexical = true) ∨
        ∃ tokens', tokenize joinedSelection.newText = .ok tokens' ∧
          kinds tokens' ≠ kinds quotedSelection) := by
  have cut : tokenize "SELECT 'x' , a FROM t" = .ok quotedSelection := by decide +kernel
  have parted : Setting.Parted denseSelection.settings :=
    .cons_cons nofun <| .cons_cons nofun <| .cons_cons nofun <|
      .cons_cons (fun _ => List.cons_ne_nil _ _) <|
      .cons_cons (fun _ => List.cons_ne_nil _ _) <| .singleton _
  have joined : Setting.Joined joinedSelection.settings :=
    ⟨joinedSelection.settings.take 3, _, _, joinedSelection.settings.drop 5, rfl, rfl, rfl,
      by simp [joinedSelection], by simp [joinedSelection]⟩
  exact ⟨cut, rfl, parted, (reading_of_resetting cut denseSelection).1 parted, rfl, joined,
    (reading_of_resetting cut joinedSelection).2 joined⟩

end CompactSql
