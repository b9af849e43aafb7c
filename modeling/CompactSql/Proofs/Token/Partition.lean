import CompactSql.Proofs.Token.Boundary

/-!
# The pieces of a text

Calling a lexer again and again cuts its text, whatever the text is, into pieces with
nothing but blanks around them.  A piece is a token by itself, a fault as much as any
other, and behind the last one the end token comes for ever.
-/

namespace CompactSql

open Token (Kind)
open Token.Lexeme (longest)

namespace Token.Lexeme

def Detaches (read : List Char → Lexeme) (first : Char) (rest : List Char) : Prop :=
  ∃ more, rest = more ++ (read rest).rest ∧ (read rest).text = first :: more ∧
    read more = ⟨(read rest).kind, first :: more, []⟩

private theorem comparison_detaches (strict orEqual : Kind) (sign : Char) (rest : List Char) :
    Detaches (comparison strict orEqual sign) sign rest := by
  cases rest with
  | nil => exact ⟨[], rfl, rfl, rfl⟩
  | cons c rest =>
      by_cases equal : c = '='
      · subst equal
        exact ⟨['='], rfl, rfl, rfl⟩
      · have strictly : comparison strict orEqual sign (c :: rest) = ⟨strict, [sign], c :: rest⟩ :=
          comparison_of_stops _ _ _ (Stops.cons.mpr (beq_eq_false_iff_ne.mpr equal))
        rw [Detaches, strictly]
        exact ⟨[], rfl, rfl, rfl⟩

private theorem quoted_detaches (rest : List Char) : Detaches quoted '\'' rest := by
  cases close : Text.close? rest with
  | none => exact ⟨rest, by simp [quoted, close], by simp [quoted, close], by simp [quoted, close]⟩
  | some split =>
      obtain ⟨raw, after⟩ := split
      obtain ⟨inner, rfl⟩ := doubled_of_close? close
      have alone : Text.close? (Text.double inner ++ ['\'']) = some (Text.double inner, []) :=
        close?_double inner rfl
      refine ⟨Text.double inner ++ ['\''], ?_, ?_, ?_⟩
      · simpa [quoted, close] using Text.eq_append_of_close? close
      · simp [quoted, close]
      · simp [quoted, close, alone]

private theorem run_detaches (p : Char → Bool) (ofText : List Char → Kind) (first : Char)
    (rest : List Char) : Detaches (run p ofText first) first rest := by
  have inside : ∀ c ∈ rest.takeWhile p, p c = true := List.all_eq_true.mp List.all_takeWhile
  have alone : run p ofText first (rest.takeWhile p ++ []) =
      ⟨ofText (first :: rest.takeWhile p), first :: rest.takeWhile p, []⟩ :=
    run_of_stops ofText first inside rfl
  rw [List.append_nil] at alone
  exact ⟨rest.takeWhile p, List.takeWhile_append_dropWhile.symm, rfl, alone⟩

private theorem longest_detaches (first : Char) (rest : List Char) :
    Detaches (longest first) first rest := by
  apply longest_ways (P := fun read => Detaches read first rest)
  · exact fun _ _ => ⟨[], rfl, rfl, rfl⟩
  · exact fun _ => comparison_detaches _ _ _ _
  · exact fun _ => comparison_detaches _ _ _ _
  · rintro rfl
    exact quoted_detaches rest
  · exact fun _ => run_detaches _ _ _ _
  · exact fun _ => run_detaches _ _ _ _
  · exact ⟨[], rfl, rfl, rfl⟩

variable {kind : Kind}

theorem comparison_alone {strict orEqual : Kind} {sign : Char} {more : List Char}
    (h : comparison strict orEqual sign more = ⟨kind, sign :: more, []⟩) :
    (kind = strict ∧ more = []) ∨ (kind = orEqual ∧ more = ['=']) := by
  unfold comparison at h
  split at h
  · cases h
    exact .inr ⟨rfl, rfl⟩
  · cases h
    exact .inl ⟨rfl, rfl⟩

theorem run_alone {p : Char → Bool} {ofText : List Char → Kind} {first : Char}
    {more : List Char} (h : run p ofText first more = ⟨kind, first :: more, []⟩) :
    (∀ c ∈ more, p c = true) ∧ kind = ofText (first :: more) := by
  obtain ⟨hkind, htext, -⟩ := Lexeme.mk.inj h
  have whole : more.takeWhile p = more := (List.cons.inj htext).2
  rw [whole] at hkind
  refine ⟨?_, hkind.symm⟩
  rw [← whole]
  exact List.all_eq_true.mp List.all_takeWhile

theorem fault_cases {first : Char} {rest : List Char} {cause : Fault} :
    (longest first rest).kind = .fault cause →
      cause = .unexpectedCharacter first ∨ (∃ digits, cause = .integerTooLarge digits) ∨
        (cause = .unterminatedString ∧ first = '\'' ∧ Text.close? rest = none) := by
  apply longest_cases (P := fun lexeme => lexeme.kind = .fault cause →
    cause = .unexpectedCharacter first ∨ (∃ digits, cause = .integerTooLarge digits) ∨
      (cause = .unterminatedString ∧ first = '\'' ∧ Text.close? rest = none))
  · intro kind symbol fault
    unfold Kind.ofSymbol? at symbol
    split at symbol <;> cases symbol <;> cases fault
  · exact fun _ fault => absurd fault
      (comparison_kind (P := (· ≠ .fault cause)) (by simp) (by simp) _ _)
  · exact fun _ fault => absurd fault
      (comparison_kind (P := (· ≠ .fault cause)) (by simp) (by simp) _ _)
  · intro quote fault
    unfold quoted at fault
    split at fault
    · cases fault
    · next unclosed =>
        cases fault
        exact .inr (.inr ⟨rfl, quote, unclosed⟩)
  · intro _ fault
    simp only [run, Kind.ofDigits] at fault
    split at fault
    · cases fault
    · cases fault
      exact .inr (.inl ⟨_, rfl⟩)
  · intro _ fault
    simp only [run, Kind.ofWord] at fault
    split at fault <;> cases fault
  · rintro ⟨⟩
    exact .inl rfl

theorem open_of_unterminated {first : Char} {rest : List Char}
    (h : (longest first rest).kind = .fault .unterminatedString) :
    first = '\'' ∧ Text.close? rest = none := by
  rcases fault_cases h with other | ⟨digits, other⟩ | ⟨-, unclosed⟩
  · cases other
  · cases other
  · exact unclosed

private theorem rest_of_unterminated {first : Char} {rest : List Char}
    (h : (longest first rest).kind = .fault .unterminatedString) :
    (longest first rest).rest = [] := by
  obtain ⟨rfl, unclosed⟩ := open_of_unterminated h
  have chosen : longest '\'' rest = quoted rest := rfl
  rw [chosen, quoted, unclosed]

end Token.Lexeme

/-- The piece begins with no blank, and all of it is one token of the kind. -/
inductive Token.Kind.Covers (kind : Kind) : List Char → Prop
  | piece {first : Char} {more : List Char} : Text.isBlank first = false → kind ≠ .eof →
      longest first more = ⟨kind, first :: more, []⟩ → kind.Covers (first :: more)

/-- Pieces in a row from a byte on, with blanks before, between and behind them. -/
inductive Tiled : Nat → List Char → List Token → Prop
  | blank {offset : Nat} {gap : List Char} :
      (∀ c ∈ gap, Text.isBlank c = true) → Tiled offset gap []
  | piece {offset start stop : Nat} {gap piece rest : List Char} {kind : Kind}
      {tokens : List Token} :
      (∀ c ∈ gap, Text.isBlank c = true) → kind.Covers piece →
      start = offset + Text.byteLength gap → stop = start + Text.byteLength piece →
      Tiled stop rest tokens →
      Tiled offset (gap ++ (piece ++ rest)) (⟨kind, ⟨start, stop⟩⟩ :: tokens)

/-! ## Repeated calls -/

namespace Lexer

/-- The token that call number `n` gives, the first call being number zero. -/
def call (lexer : Lexer) : Nat → Token
  | 0 => lexer.next.1
  | n + 1 => lexer.next.2.call n

def after (lexer : Lexer) : Nat → Lexer
  | 0 => lexer
  | n + 1 => lexer.next.2.after n

def ending (lexer : Lexer) : Token :=
  ⟨.eof, .point (lexer.offset + Text.byteLength lexer.rest)⟩

theorem ending_ofText (text : String) :
    (ofText text).ending = ⟨.eof, .point (Text.byteLength text.toList)⟩ := by
  simp [ending, ofText]

theorem next_of_blank {lexer : Lexer} (left : lexer.skipBlanks.rest = []) :
    (∀ c ∈ lexer.rest, Text.isBlank c = true) ∧
      lexer.next = (lexer.ending, ⟨lexer.ending.span.stop, []⟩) := by
  obtain ⟨gap, split, blank, moved, -⟩ := lexer.skipBlanks_split
  rw [left, List.append_nil] at split
  subst split
  have place : lexer.skipBlanks = ⟨lexer.ending.span.stop, []⟩ := by
    rw [← left, ending, ← moved]
    rfl
  rw [next_of_nil left, place]
  exact ⟨blank, rfl⟩

private theorem call_of_blank {lexer : Lexer} (left : lexer.skipBlanks.rest = []) (n : Nat) :
    lexer.call n = lexer.ending := by
  induction n generalizing lexer with
  | zero => rw [call, (next_of_blank left).2]
  | succ n ih =>
      rw [call, (next_of_blank left).2, ih rfl]
      rfl

theorem next_of_piece {lexer : Lexer} {first : Char} {rest : List Char}
    (left : lexer.skipBlanks.rest = first :: rest) :
    ∃ gap piece kind after, lexer.rest = gap ++ (piece ++ after) ∧
      (∀ c ∈ gap, Text.isBlank c = true) ∧ Token.Kind.Covers kind piece ∧
      lexer.next =
        (⟨kind, ⟨lexer.offset + Text.byteLength gap,
            lexer.offset + Text.byteLength gap + Text.byteLength piece⟩⟩,
          ⟨lexer.offset + Text.byteLength gap + Text.byteLength piece, after⟩) := by
  obtain ⟨more, split, text, alone⟩ := Token.Lexeme.longest_detaches first rest
  obtain ⟨gap, whole, blank, moved, solid⟩ := lexer.skipBlanks_split
  rw [left, Stops.cons] at solid
  refine ⟨gap, first :: more, (longest first rest).kind, (longest first rest).rest, ?_, blank,
    .piece solid (Token.Lexeme.longest_ne_eof first rest) alone, ?_⟩
  · rw [whole, left, List.cons_append, ← split]
  · rw [next_of_cons left, ← moved]
    simp only [text]

theorem ending_next (lexer : Lexer) : lexer.next.2.ending = lexer.ending := by
  cases left : lexer.skipBlanks.rest with
  | nil =>
      rw [(next_of_blank left).2]
      simp [ending, Span.point]
  | cons first rest =>
      obtain ⟨gap, piece, kind, after, split, -, -, next⟩ := next_of_piece left
      simp [next, ending, split, Nat.add_assoc]

/-- The tokens before the end token are pieces in a row, and the calls give them in this
order and then nothing but the end token. -/
theorem stream_tiled (lexer : Lexer) :
    ∃ tokens, lexer.stream = tokens ++ [lexer.ending] ∧
      Tiled lexer.offset lexer.rest tokens ∧
      ∀ n, lexer.call n = tokens.getD n lexer.ending := by
  induction size : lexer.rest.length using Nat.strongRecOn generalizing lexer with
  | ind size ih =>
      subst size
      cases left : lexer.skipBlanks.rest with
      | nil =>
          obtain ⟨blank, next⟩ := next_of_blank left
          refine ⟨[], ?_, .blank blank, fun n => by simp [call_of_blank left]⟩
          rw [stream, dif_pos (by rw [next]; rfl), next]
          rfl
      | cons first rest =>
          obtain ⟨gap, piece, kind, after, split, blank, covers, next⟩ := next_of_piece left
          have inner : kind ≠ .eof := by
            cases covers
            assumption
          have onward : lexer.next.1.isEof = false := by simp [next, Token.isEof, inner]
          obtain ⟨tokens, whole, tiled, calls⟩ := ih _ (next_rest_length onward) lexer.next.2 rfl
          rw [ending_next] at whole calls
          refine ⟨lexer.next.1 :: tokens, ?_, ?_, ?_⟩
          · rw [stream, dif_neg (by simp [onward]), whole, List.cons_append]
          · rw [next] at tiled ⊢
            rw [split]
            exact .piece blank covers rfl rfl tiled
          · rintro (_ | n)
            · rfl
            · rw [call, calls, List.getD_cons_succ]

theorem stop_of_unterminated (lexer : Lexer) : ∀ token ∈ lexer.stream,
    token.kind = .fault .unterminatedString → token.span.stop = lexer.ending.span.stop := by
  induction size : lexer.rest.length using Nat.strongRecOn generalizing lexer with
  | ind size ih =>
      subst size
      intro token member unclosed
      rw [stream] at member
      split at member
      · obtain rfl := List.mem_singleton.mp member
        next ended => simp [Token.isEof, unclosed] at ended
      · next onward =>
          rw [← ending_next]
          rcases List.mem_cons.mp member with rfl | later
          · cases left : lexer.skipBlanks.rest with
            | nil => simp [next_of_nil left, Token.isEof] at onward
            | cons first rest =>
                rw [next_of_cons left] at unclosed ⊢
                simp [ending, Span.point, Token.Lexeme.rest_of_unterminated unclosed]
          · exact ih _ (next_rest_length (by simpa using onward)) _ rfl token later unclosed

theorem tokenize_walk (lexer : Lexer) :
    ((∀ token ∈ lexer.stream, ∀ cause, token.kind ≠ .fault cause) ∧
        lexer.tokenize = (.ok lexer.stream, lexer.after lexer.stream.length)) ∨
      ∃ front token back cause, lexer.stream = front ++ token :: back ∧
        (∀ earlier ∈ front, ∀ cause, earlier.kind ≠ .fault cause) ∧
        token.kind = .fault cause ∧
        lexer.tokenize = (.error ⟨.lexical cause, token.span⟩, lexer.after (front.length + 1)) := by
  -- on what is left of the text; a token that is not the end takes a character
  induction size : lexer.rest.length using Nat.strongRecOn generalizing lexer with
  | ind size ih =>
      subst size
      rw [tokenize, stream]
      by_cases ended : lexer.next.1.isEof = true
      · have kind : lexer.next.1.kind = .eof := by simpa [Token.isEof] using ended
        rw [dif_pos ended, dif_pos ended]
        refine .inl ⟨?_, rfl⟩
        rw [List.forall_mem_singleton, kind]
        intro cause eof
        cases eof
      · rw [dif_neg ended, dif_neg ended]
        split
        · next cause fault =>
            exact .inr ⟨[], _, _, cause, rfl, by simp, fault, rfl⟩
        · next sound =>
            rcases ih _ (next_rest_length (by simpa using ended)) lexer.next.2 rfl with
              ⟨others, whole⟩ | ⟨front, token, back, cause, split, others, fault, stopped⟩
            · rw [whole]
              exact .inl ⟨List.forall_mem_cons.mpr ⟨sound, others⟩, rfl⟩
            · rw [stopped, split]
              exact .inr ⟨_ :: front, token, back, cause, rfl,
                List.forall_mem_cons.mpr ⟨sound, others⟩, fault, rfl⟩

theorem tokenize_stream (lexer : Lexer) :
    ((∀ token ∈ lexer.stream, ∀ cause, token.kind ≠ .fault cause) ∧
        lexer.tokenize.1 = .ok lexer.stream) ∨
      ∃ front token back cause, lexer.stream = front ++ token :: back ∧
        (∀ earlier ∈ front, ∀ cause, earlier.kind ≠ .fault cause) ∧
        token.kind = .fault cause ∧ lexer.tokenize.1 = .error ⟨.lexical cause, token.span⟩ := by
  rcases lexer.tokenize_walk with
    ⟨sound, whole⟩ | ⟨front, token, back, cause, split, sound, fault, stopped⟩
  · exact .inl ⟨sound, congrArg Prod.fst whole⟩
  · exact .inr ⟨front, token, back, cause, split, sound, fault, congrArg Prod.fst stopped⟩

end Lexer

/-! ## What a row of pieces comes to -/

private theorem Text.place_cases {front back before after : List Char} {c : Char}
    (place : front ++ back = before ++ c :: after) :
    (∃ behind, front = before ++ c :: behind) ∨
      ∃ inside, before = front ++ inside ∧ back = inside ++ c :: after := by
  rcases List.append_eq_append_iff.mp place with ⟨inside, rfl, eq⟩ | ⟨behind, rfl, eq⟩
  · exact .inr ⟨inside, rfl, eq⟩
  · cases behind with
    | nil => exact .inr ⟨[], by simp, by simpa using eq.symm⟩
    | cons other behind =>
        obtain ⟨rfl, -⟩ := List.cons.inj eq
        exact .inl ⟨behind, rfl⟩

namespace Tiled

variable {offset : Nat} {text : List Char} {tokens : List Token}

theorem isEof_eq (h : Tiled offset text tokens) : ∀ token ∈ tokens, token.isEof = false := by
  induction h with
  | blank => simp
  | piece _ covers _ _ _ ih =>
      obtain ⟨-, inner, -⟩ := covers
      exact List.forall_mem_cons.mpr ⟨by simp [Token.isEof, inner], ih⟩

theorem length_le (h : Tiled offset text tokens) :
    tokens.length ≤ text.countP (!Text.isBlank ·) := by
  induction h with
  | blank => simp
  | @piece _ _ _ gap piece rest _ tokens _ covers _ _ _ ih =>
      obtain ⟨solid, -, -⟩ := covers
      simp [solid]
      omega

theorem covers (h : Tiled offset text tokens) :
    ∀ token ∈ tokens, ∃ before piece after, text = before ++ (piece ++ after) ∧
      token.span = ⟨offset + Text.byteLength before,
        offset + Text.byteLength before + Text.byteLength piece⟩ ∧
      token.kind.Covers piece := by
  induction h with
  | blank => simp
  | @piece offset _ _ gap piece rest _ tokens _ covers start stop _ ih =>
      subst start stop
      refine List.forall_mem_cons.mpr ⟨⟨gap, piece, rest, rfl, rfl, covers⟩, ?_⟩
      intro token member
      obtain ⟨before, inner, after, rfl, span, covers⟩ := ih token member
      refine ⟨gap ++ (piece ++ before), inner, after, by simp, ?_, covers⟩
      simpa [Nat.add_assoc] using span

private theorem le_start (h : Tiled offset text tokens) :
    ∀ token ∈ tokens, offset ≤ token.span.start := by
  intro token member
  obtain ⟨before, piece, after, -, span, -⟩ := h.covers token member
  rw [span]
  exact Nat.le_add_right _ _

theorem pairwise (h : Tiled offset text tokens) :
    tokens.Pairwise fun first second => first.span.stop ≤ second.span.start := by
  induction h with
  | blank => exact .nil
  | piece _ _ _ _ tiled ih => exact .cons tiled.le_start ih

theorem isBlank_or_covered (h : Tiled offset text tokens) {before after : List Char} {c : Char}
    (place : text = before ++ c :: after) :
    Text.isBlank c = true ∨ ∃ token ∈ tokens,
      token.span.start ≤ offset + Text.byteLength before ∧
        offset + Text.byteLength before + c.utf8Size ≤ token.span.stop := by
  induction h generalizing before with
  | blank blank => exact .inl (blank c (by simp [place]))
  | @piece offset _ _ gap piece rest kind tokens blank _ start stop _ ih =>
      subst start stop
      rcases Text.place_cases place with ⟨behind, rfl⟩ | ⟨inside, rfl, place'⟩
      · exact .inl (blank c (by simp))
      rcases Text.place_cases place' with ⟨behind, rfl⟩ | ⟨beyond, rfl, later⟩
      · refine .inr ⟨_, List.mem_cons_self, ?_⟩
        simp only [Text.byteLength_append, Text.byteLength_cons]
        omega
      · refine (ih later).imp_right ?_
        rintro ⟨token, member, low, high⟩
        refine ⟨token, List.mem_cons_of_mem _ member, ?_⟩
        simp only [Text.byteLength_append]
        omega

end Tiled

/-! ## Whole texts -/

/-- The tokens take up the text but for its blanks: each of them a non-empty range of whole
characters that alone gives the same token first, in order and apart. -/
structure Partition (text : String) (tokens : List Token) : Prop where
  /-- The calls of a lexer give these tokens, and then the end token for ever. -/
  calls : ∀ n, (Lexer.ofText text).call n =
    tokens.getD n ⟨.eof, .point (Text.byteLength text.toList)⟩
  /-- No more calls than there are characters other than blanks, and then the end. -/
  length_le : tokens.length ≤ text.toList.countP (!Text.isBlank ·)
  inside : ∀ token ∈ tokens, token.isEof = false ∧
    ∃ before piece after, text.toList = before ++ (piece ++ after) ∧ piece ≠ [] ∧
      token.span = ⟨Text.byteLength before, Text.byteLength (before ++ piece)⟩ ∧
      (Lexer.ofText (String.ofList piece)).next.1 = ⟨token.kind, ⟨0, Text.byteLength piece⟩⟩
  ordered : tokens.Pairwise fun first second => first.span.stop ≤ second.span.start
  outside : ∀ before c after, text.toList = before ++ c :: after →
    Text.isBlank c = true ∨ ∃ token ∈ tokens,
      token.span.start ≤ Text.byteLength before ∧
        Text.byteLength (before ++ [c]) ≤ token.span.stop

private theorem Token.Kind.Covers.next_eq {kind : Kind} {piece : List Char}
    (h : kind.Covers piece) :
    (Lexer.ofText (String.ofList piece)).next.1 = ⟨kind, ⟨0, Text.byteLength piece⟩⟩ := by
  obtain ⟨solid, -, alone⟩ := h
  next first more =>
  have left : (Lexer.ofText (String.ofList (first :: more))).skipBlanks =
      ⟨0, first :: more⟩ := by
    simp [Lexer.ofText, Lexer.skipBlanks, solid]
  rw [Lexer.next_of_cons (by rw [left]), left, alone]
  simp

theorem tokenize_tiled {text : String} {tokens : List Token} (h : tokenize text = .ok tokens) :
    ∃ pieces, tokens = pieces ++ [⟨.eof, .point (Text.byteLength text.toList)⟩] ∧
      Tiled 0 text.toList pieces ∧ ∀ token ∈ pieces, ∀ cause, token.kind ≠ .fault cause := by
  obtain ⟨pieces, whole, tiled, -⟩ := (Lexer.ofText text).stream_tiled
  rcases (Lexer.ofText text).tokenize_stream with
    ⟨sound, cut⟩ | ⟨_, _, _, _, _, _, _, stopped⟩
  · obtain rfl : tokens = (Lexer.ofText text).stream := Except.ok.inj (h.symm.trans cut)
    rw [whole, List.forall_mem_append] at sound
    refine ⟨pieces, ?_, tiled, sound.1⟩
    simpa [Lexer.ending, Lexer.ofText] using whole
  · cases h.symm.trans stopped

theorem tokenize_fault {text : String} {failure : Failure} (h : tokenize text = .error failure) :
    ∃ pieces token cause, Tiled 0 text.toList pieces ∧ token ∈ pieces ∧
      token.kind = .fault cause ∧ failure = ⟨.lexical cause, token.span⟩ ∧
      (cause = .unterminatedString → token.span.stop = Text.byteLength text.toList) := by
  obtain ⟨pieces, whole, tiled, -⟩ := (Lexer.ofText text).stream_tiled
  rcases (Lexer.ofText text).tokenize_stream with
    ⟨-, cut⟩ | ⟨front, token, back, cause, split, -, fault, stopped⟩
  · cases h.symm.trans cut
  · have member : token ∈ pieces ++ [(Lexer.ofText text).ending] := by
      rw [← whole, split]
      simp
    rcases List.mem_append.mp member with inner | last
    · refine ⟨pieces, token, cause, tiled, inner, fault,
        Except.error.inj (h.symm.trans stopped), ?_⟩
      rintro rfl
      have stop := (Lexer.ofText text).stop_of_unterminated token (by simp [split]) fault
      simpa [Lexer.ending, Lexer.ofText, Span.point] using stop
    · obtain rfl := List.mem_singleton.mp last
      cases fault

/-- Every text is cut into tokens that take up all of it but its blanks. -/
theorem stream_partition (text : String) :
    ∃ tokens, (Lexer.ofText text).stream =
        tokens ++ [⟨.eof, .point (Text.byteLength text.toList)⟩] ∧
      Partition text tokens := by
  obtain ⟨tokens, whole, tiled, calls⟩ := (Lexer.ofText text).stream_tiled
  have ending : (Lexer.ofText text).ending = ⟨.eof, .point (Text.byteLength text.toList)⟩ := by
    simp [Lexer.ending, Lexer.ofText]
  rw [ending] at whole calls
  refine ⟨tokens, whole, calls, tiled.length_le, ?_, tiled.pairwise, ?_⟩
  · intro token member
    obtain ⟨before, piece, after, split, span, covers⟩ := tiled.covers token member
    have nonempty : piece ≠ [] := by
      cases covers
      simp
    refine ⟨tiled.isEof_eq token member, before, piece, after, split, nonempty, ?_,
      covers.next_eq⟩
    simpa [Lexer.ofText] using span
  · intro before c after place
    have covered := tiled.isBlank_or_covered place
    simpa [Lexer.ofText, Nat.add_assoc] using covered

example : (Lexer.ofText "a<=é 'b ").stream =
    [⟨.identifier "a", ⟨0, 1⟩⟩, ⟨.ltEq, ⟨1, 3⟩⟩, ⟨.fault (.unexpectedCharacter 'é'), ⟨3, 5⟩⟩,
      ⟨.fault .unterminatedString, ⟨6, 9⟩⟩, ⟨.eof, ⟨9, 9⟩⟩] := by decide +kernel

end CompactSql
