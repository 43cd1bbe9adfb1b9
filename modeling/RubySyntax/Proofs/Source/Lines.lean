/-
  RubySyntax.Proofs.Source.Lines
  ──────────────────────────────
  **WHERE THE LINES OF A SOURCE END.**

  A marker is looked for twice: the scan stops at one that it comes to where a line begins, and
  the lines of a source are cut at one behind the line of the last token.  The second search knows
  nothing of literals and documents.  It has no need to know of literals, each of which has a token
  behind its content; but a document has none, and the lines are cut in a document that has a
  marker for a line.  Else both searches find the same marker.

      no marker in a comment behind the last token   ⇔   lines = lines of the program

  Main results:
    • `exists_lexed_of_read` — a source that has a tree has the tokens of its text,
    • `lines_eq_of_lexed` — its lines are those of the program, up to a marker behind the last
      token,
    • `lines_end` — they are all of those lines exactly if no comment back there has a marker.
-/
import RubySyntax.Source
import RubySyntax.Proofs.Dialect
import RubySyntax.Proofs.Program
import RubySyntax.Proofs.Token.Marker

namespace RubySyntax.Source

open RubySyntax.Text
open RubySyntax.Token (lex Lexed)
open RubySyntax.Token.Lexer

/-! ## §1. Sources that have been read. -/

/-- Contents without a failure have the tokens and comments of their text. -/
theorem Contents.exists_lexed_of_read {version : Version} {name : String}
    {default? : Option String} {raw : List UInt8}
    (h : (read (Dialect.standard version) name default? raw).failure? = none) :
    ∃ lexed, (lex (read (Dialect.standard version) name default? raw).text).1 = .ok lexed ∧
      (read (Dialect.standard version) name default? raw).tokens = lexed.tokens ∧
      (read (Dialect.standard version) name default? raw).comments = lexed.comments := by
  unfold read at h ⊢
  split at h
  · cases h
  next text encoding hdecode =>
    split at h
    next p found hread =>
      have hprogram : (Program.read version text).1 = .ok p := by
        rw [show Program.read version text = (.ok p, found) from hread]
      obtain ⟨lexed, found', hlex, htokens, hcomments, -⟩ := Program.eq_of_read hprogram
      exact ⟨lexed, congrArg Prod.fst hlex, htokens, hcomments⟩
    next => cases h

/-- **A source without a failure has the tokens and comments of its text.** -/
theorem exists_lexed_of_read {version : Version} {path? default? : Option String}
    {raw : List UInt8} {s : Source} (hs : read version path? default? raw = .ok s)
    (h : s.contents.failure? = none) :
    ∃ lexed, (lex s.contents.text).1 = .ok lexed ∧ s.contents.tokens = lexed.tokens ∧
      s.contents.comments = lexed.comments := by
  unfold read at hs
  split at hs
  next d hd =>
    cases hs
    rw [Dialect.Registry.eq_standard_of_resolve hd] at h ⊢
    exact Contents.exists_lexed_of_read h
  next => cases hs

theorem read_standard {version : Version} (h : version ∈ Version.known)
    (path? default? : Option String) (raw : List UInt8) :
    read version path? default? raw =
      .ok (ofDialect (Dialect.standard version) path? default? raw) := by
  rw [read, Dialect.Registry.resolve_standard h]

/-! ## §2. Cutting a list. -/

section Cut

variable {α : Type} {p : α → Bool} {k : Nat} {xs : List α}

/-- A cut at the first element behind the first `k` that fails a test, at the latest at one that
is known to fail. -/
theorem take_append_takeWhile_append (hk : k ≤ xs.length) {ys : List α}
    (hys : ∀ y ∈ ys.head?, p y = false) :
    (xs ++ ys).take k ++ ((xs ++ ys).drop k).takeWhile p = xs.take k ++ (xs.drop k).takeWhile p := by
  have hnil : ys.takeWhile p = [] := by
    cases ys with
    | nil => rfl
    | cons y ys => exact List.takeWhile_cons_of_neg (by rw [hys y rfl]; exact Bool.false_ne_true)
  rw [List.take_append_of_le_length hk, List.drop_append_of_le_length hk, List.takeWhile_append,
    hnil, List.append_nil]
  split
  next hall => rw [(List.takeWhile_prefix p).eq_of_length hall]
  next => rfl

theorem take_append_takeWhile_prefix (k : Nat) : xs.take k ++ (xs.drop k).takeWhile p <+: xs := by
  obtain ⟨more, hmore⟩ := List.takeWhile_prefix (l := xs.drop k) p
  exact ⟨more, by rw [List.append_assoc, hmore, List.take_append_drop]⟩

/-- Nothing is cut off exactly if no element behind the first `k` fails the test. -/
theorem take_append_takeWhile_eq_iff :
    xs.take k ++ (xs.drop k).takeWhile p = xs ↔ ∀ x ∈ xs.drop k, p x = true := by
  rw [← List.takeWhile_eq_self_iff]
  constructor
  · intro h
    have hall := h.trans (List.take_append_drop k xs).symm
    exact List.append_cancel_left hall
  · intro h
    rw [h, List.take_append_drop]

end Cut

/-! ## §3. The lines of a program. -/

/-- A comment behind the last token has the data marker as a line. -/
def MarkerInComment (s : Source) : Prop :=
  ∃ c ∈ s.contents.comments, (∀ t ∈ s.contents.tokens, t.span.stop ≤ c.span.start) ∧
    dataMarker ∈ logicalLines c.text

/-- What the lines of a source have to do with the program in its text. -/
structure LinesOfProgram (s : Source) (lexed : Lexed) : Prop where
  tokens : s.contents.tokens = lexed.tokens
  comments : s.contents.comments = lexed.comments
  /-- The program ends with the text, or at the marker, and the lines are the first of its lines:
  all of them, unless a comment behind the last token has a marker. -/
  stops : ∃ program rest, s.contents.text.toList = program ++ rest ∧
    byteLength program = lexed.stop ∧ EndsProgram program rest ∧
    s.lines <+: logicalLines (String.ofList program) ∧
    (s.lines = logicalLines (String.ofList program) ↔ ¬ s.MarkerInComment)
  /-- Each token begins on one of the lines. -/
  token_line : ∀ t ∈ s.contents.tokens, 0 < t.span.line ∧ t.span.line ≤ s.lines.length
  /-- So does each comment, if no marker is in one behind the last token. -/
  comment_line : ¬ s.MarkerInComment →
    ∀ c ∈ s.contents.comments, 0 < c.span.line ∧ c.span.line ≤ s.lines.length

/-- Where the program ends the lines of the text can be cut in two, and the second part is nothing
or begins with the marker. -/
theorem splitLines_of_atEnd {text read : List Char} {s : State}
    (hread : Consumed text read s.rest s.pos s.atLineStart s.tokens s.comments s.diagnostics)
    (hend : AtEnd s) : (BeginsLine read ∨ s.rest = []) ∧
      splitLines text = splitLines read ++ splitLines s.rest ∧
      ∀ raw ∈ (splitLines s.rest).head?, chompChars raw = "__END__".toList := by
  rcases hend with hrest | ⟨hline, hmarker⟩
  · rw [hread.text_eq, hrest, List.append_nil]
    exact ⟨.inr rfl, (List.append_nil _).symm, fun raw hraw => nomatch hraw⟩
  · have hbegins := hread.lineStart.mp hline
    refine ⟨.inl hbegins, ?_, fun raw hraw => ?_⟩
    · rw [hread.text_eq, splitLines_append hbegins]
    · have hbeginsMarker := (atEndMarker_iff s).mp hmarker
      rw [BeginsMarker, Option.mem_def.mp hraw] at hbeginsMarker
      exact Option.some.inj hbeginsMarker

/-- **The lines of a source are those of the program**, up to a marker behind the last token. -/
theorem lines_eq_of_atEnd {s : Source} {t : State} {read : List Char}
    (hread : Consumed s.contents.text.toList read t.rest t.pos t.atLineStart t.tokens t.comments
      t.diagnostics) (hend : AtEnd t) {k : Nat} (hlast : s.lastTokenLine? = some k)
    (hk : k ≤ (splitLines read).length) :
    s.lines = (logicalLines (String.ofList read)).take k ++
      ((logicalLines (String.ofList read)).drop k).takeWhile (· != dataMarker) := by
  obtain ⟨-, hsplit, hfirst⟩ := splitLines_of_atEnd hread hend
  have hall : logicalLines s.contents.text = logicalLines (String.ofList read) ++
      (splitLines t.rest).map fun line => String.ofList (chompChars line) := by
    rw [logicalLines_eq, logicalLines_eq, hsplit, List.map_append, String.toList_ofList]
  unfold lines
  simp only [hlast, Option.getD_some, hall]
  refine take_append_takeWhile_append ?_ fun line hline => ?_
  · rwa [logicalLines_eq, List.length_map, String.toList_ofList]
  · rw [List.head?_map] at hline
    obtain ⟨raw, hraw, rfl⟩ := Option.map_eq_some_iff.mp hline
    rw [hfirst raw hraw, String.ofList_toList]
    rfl

/-- No line behind the first `k` is the marker. -/
theorem forall_ne_dataMarker_iff (read : List Char) (k : Nat) :
    (∀ line ∈ (logicalLines (String.ofList read)).drop k, (line != dataMarker) = true) ↔
      ¬ ∃ raw ∈ (splitLines read).drop k, chompChars raw = "__END__".toList := by
  rw [logicalLines_eq, String.toList_ofList, ← List.map_drop, List.forall_mem_map]
  push Not
  refine forall₂_congr fun raw _ => ?_
  rw [bne_iff_ne]
  refine not_congr ⟨fun hline => ?_, fun hchomp => ?_⟩
  · rw [← @String.toList_ofList (chompChars raw), hline]
    rfl
  · rw [hchomp, String.ofList_toList]
    rfl

/-- **The lines of a source end where its program ends**, or before that at a marker in a comment
behind the last token. -/
theorem lines_end {version : Version} {path? default? : Option String} {raw : List UInt8}
    {s : Source} (hs : read version path? default? raw = .ok s) (h : s.contents.failure? = none)
    (htokens : s.contents.tokens ≠ []) :
    ∃ lexed, (lex s.contents.text).1 = .ok lexed ∧ LinesOfProgram s lexed := by
  obtain ⟨lexed, hlex, htoks, hcomms⟩ := exists_lexed_of_read hs h
  obtain ⟨t, hreach, hend, -, rfl⟩ := reachable_of_lex hlex
  have hmarked := hreach.marked
  obtain ⟨-, program, hread⟩ := hreach.scanned
  have hledger := hread.ledger
  have hmem : ∀ u, u ∈ s.contents.tokens ↔ u ∈ t.tokens := fun u => by rw [htoks, List.mem_reverse]
  have hmemc : ∀ c, c ∈ s.contents.comments ↔ c ∈ t.comments := fun c => by
    rw [hcomms, List.mem_reverse]
  obtain ⟨last, earlier, hlatest⟩ : ∃ last earlier, t.tokens = last :: earlier := by
    refine List.exists_cons_of_ne_nil fun hnil => htokens ?_
    rw [htoks, hnil, List.reverse_nil]
  have hlast : last ∈ t.tokens := hlatest ▸ List.mem_cons_self
  have hlastLine : s.lastTokenLine? = some last.span.line := by
    rw [lastTokenLine?, htoks, List.getLast?_reverse, hlatest]
    rfl
  have hplaced := hmarked.tokens last hlast
  have hk := hplaced.line_le hread.text_eq (hledger.tokens_within last hlast).1
    (hledger.tokens_within last hlast).2
  have hlines := lines_eq_of_atEnd hread hend hlastLine hk
  have hlength : (logicalLines (String.ofList program)).length = (splitLines program).length := by
    rw [logicalLines_eq, List.length_map, String.toList_ofList]
  have hiff : s.lines = logicalLines (String.ofList program) ↔ ¬ s.MarkerInComment := by
    rw [hlines, take_append_takeWhile_eq_iff, forall_ne_dataMarker_iff,
      hmarked.marker_mem_iff hread hlatest (splitLines_of_atEnd hread hend).1]
    simp only [MarkerInComment, hmem, hmemc]
    rfl
  refine ⟨_, hlex, htoks, hcomms, ⟨program, t.rest, hread.text_eq, hread.pos_eq.symm, ?_, ?_, hiff⟩,
    ?_, ?_⟩
  · exact hend.imp_right fun ⟨hline, hmarker⟩ =>
      ⟨hread.lineStart.mp hline, eq_append_of_atEndMarker hmarker⟩
  · rw [hlines]
    exact take_append_takeWhile_prefix _
  · intro u hu
    rw [hmem] at hu
    have hstart := (hlatest ▸ hledger).start_le u (hlatest ▸ hu)
    have hline := (hmarked.tokens u hu).line_mono hplaced hstart
    refine ⟨(hmarked.tokens u hu).line_pos, ?_⟩
    rw [hlines, List.length_append, List.length_take, hlength]
    omega
  · intro hnone c hc
    rw [hmemc] at hc
    have hwithin := hledger.comments_within c hc
    refine ⟨(hmarked.comments c hc).1.line_pos, ?_⟩
    rw [hiff.mpr hnone, hlength]
    exact (hmarked.comments c hc).1.line_le hread.text_eq hwithin.1 hwithin.2

/-- A marker that ends the program, after a document that has a line much like it. -/
theorem lines_end_marker : ∃ s, read ⟨3, 4⟩ none none
      ("x\n=begin\n __END__\n=end\n__END__\ny\n".toList.map fun c => c.toNat.toUInt8) = .ok s ∧
    (s.contents.failure? = none ∧ s.contents.tokens ≠ [] ∧
      s.lines = ["x", "=begin", " __END__", "=end"]) ∧
    ∃ lexed, (lex s.contents.text).1 = .ok lexed ∧ LinesOfProgram s lexed := by
  have hread := @read_standard ⟨3, 4⟩ (by decide) none none
    ("x\n=begin\n __END__\n=end\n__END__\ny\n".toList.map fun c => c.toNat.toUInt8)
  refine ⟨_, hread, (and_iff_left_of_imp fun h => lines_end hread h.1 h.2.1).mpr ?_⟩
  decide +kernel

/-- **The lines are cut inside a document**, although the scan reads the text to its end. -/
theorem lines_cut_in_document : ∃ s lexed, read ⟨3, 4⟩ none none
      ("x\n=begin\n__END__\n=end\n".toList.map fun c => c.toNat.toUInt8) = .ok s ∧
    (lex s.contents.text).1 = .ok lexed ∧ lexed.stop = byteLength s.contents.text.toList ∧
    s.contents.failure? = none ∧ s.contents.tokens ≠ [] ∧
    logicalLines s.contents.text = ["x", "=begin", "__END__", "=end"] ∧
    s.lines = ["x", "=begin"] := by
  have hread := @read_standard ⟨3, 4⟩ (by decide) none none
    ("x\n=begin\n__END__\n=end\n".toList.map fun c => c.toNat.toUInt8)
  have hlexed : ((lex "x\n=begin\n__END__\n=end\n").1.toOption.any fun lexed => lexed.stop == 22)
      = true := by decide +kernel
  obtain ⟨lexed, hlex, hstop⟩ := exists_of_any hlexed
  have htext : (ofDialect (Dialect.standard ⟨3, 4⟩) none none
      ("x\n=begin\n__END__\n=end\n".toList.map fun c => c.toNat.toUInt8)).contents.text =
        "x\n=begin\n__END__\n=end\n" := by decide +kernel
  refine ⟨_, lexed, hread, ?_, ?_, ?_⟩
  · rw [htext, hlex]
  · rw [htext, beq_iff_eq.mp hstop]
    rfl
  · decide +kernel

end RubySyntax.Source
