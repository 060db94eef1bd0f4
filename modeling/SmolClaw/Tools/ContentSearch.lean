/-
  What `content_search` finds in a file (`file_contains`, `src/tools/search_tools.c`).

  The file goes through a line buffer of 1024 bytes, and `strstr` sees one piece of it at a time, up to
  the first NUL.  A query that runs over a line end, over the end of a full buffer, or stands behind a NUL
  of its piece is not found: `fileContains_iff` says exactly which searches are exact.
-/
import SmolClaw.Lib.Buffered
import SmolClaw.Tools.Search

namespace SmolClaw.Search

open Lib.Buffered

/-- `file_contains`, on what `fopen` gave -/
def fileContains (query : Bytes) (file : Option FileData) : Res Bool :=
  if query = [] then Status.invalidArgument "sc.search_tool.query_invalid"
  else if query.contains 0 then Status.invalidArgument "sc.search_tool.query_invalid_nul"
  else
    match file with
    | none => Status.io "sc.search_tool.open_failed"
    | some file =>
        let found := chunksContain query file.content.length file.content
        if !found ∧ file.readError then Status.io "sc.search_tool.read_failed" else .ok found

/-- The query is seen: some occurrence lies in one piece of one line, with no NUL in front of it there. -/
def QueryVisible (query content : Bytes) : Prop := Visible (chr '\n') 0 1023 query content

/-- **The reading loop** finds what is seen. -/
theorem chunksContain_iff {query : Bytes} (hne : query ≠ []) (hnul : 0 ∉ query) :
    ∀ (turns : Nat) (content : Bytes), content.length ≤ turns →
      (chunksContain query turns content = true ↔ QueryVisible query content) := by
  have hnil : ¬ QueryVisible query [] := by
    rintro ⟨before, after, hsplit, -⟩
    exact hne (List.append_eq_nil_iff.mp (List.append_eq_nil_iff.mp hsplit.symm).1).2
  intro turns
  induction turns with
  | zero =>
    intro content hlen
    obtain rfl := List.length_eq_zero_iff.mp (Nat.le_zero.mp hlen)
    exact ⟨nofun, fun h => absurd h hnil⟩
  | succ turns ih =>
    intro content hlen
    rw [chunksContain]
    by_cases hempty : content = []
    · rw [if_pos hempty, hempty]
      exact ⟨nofun, fun h => absurd h hnil⟩
    · have hchunk : fgetsChunk content = piece (chr '\n') 1023 content := rfl
      have hpos : 0 < (piece (chr '\n') 1023 content).length :=
        List.length_pos_of_ne_nil (piece_ne_nil (by decide) hempty)
      have hrest := ih (content.drop (piece (chr '\n') 1023 content).length) (by
        rw [List.length_drop]
        omega)
      rw [if_neg hempty, QueryVisible, visible_iff (by decide) hempty hne hnul, hchunk]
      split
      · next hseen => exact ⟨fun _ => Or.inl hseen, fun _ => rfl⟩
      · next hseen => exact hrest.trans ⟨Or.inr, fun h => h.resolve_left hseen⟩

/-- What is seen is there. -/
theorem QueryVisible.occurs {query content : Bytes} (h : QueryVisible query content) :
    query <:+: content := by
  obtain ⟨before, after, hsplit, -⟩ := h
  exact ⟨before, after, hsplit.symm⟩

/-- **When a search is exact**: the query does not occur, or one of its occurrences is seen. -/
theorem fileContains_iff (query : Bytes) (file : FileData) (hne : query ≠ []) (hnul : 0 ∉ query) :
    (fileContains query (some file) = .ok true ↔ query <:+: file.content) ↔
      (query <:+: file.content → QueryVisible query file.content) := by
  have hfound := chunksContain_iff hne hnul file.content.length file.content (Nat.le_refl _)
  have hresult : fileContains query (some file) = .ok true ↔ QueryVisible query file.content := by
    rw [← hfound, fileContains, if_neg hne, if_neg (by simpa using hnul)]
    cases chunksContain query file.content.length file.content with
    | true => simp
    | false => cases file.readError <;> simp
  rw [hresult]
  exact ⟨fun h => h.mpr, fun h => ⟨QueryVisible.occurs, h⟩⟩

/-- A word on the second line. -/
theorem fileContains_second_line :
    (fileContains (str "def") (some ⟨str "abc\ndef", false⟩) = .ok true ↔
      str "def" <:+: str "abc\ndef") := by
  refine (fileContains_iff (str "def") ⟨str "abc\ndef", false⟩ (by decide) (by decide)).mpr fun _ => ?_
  have hstart : offset (chr '\n') 1023 (str "abc\n") = 0 := by decide
  refine ⟨str "abc\n", [], by decide, by decide, ?_, ?_⟩
  · rw [hstart]
    decide
  · rw [hstart]
    decide

/-- **A query with a line end inside is not found**, nor is one behind a NUL. -/
theorem query_missed :
    (¬ ∀ (query : Bytes) (file : FileData), query ≠ [] → 0 ∉ query →
      (fileContains query (some file) = .ok true ↔ query <:+: file.content)) ∧
      fileContains (str "b") (some ⟨[97, 0, 98], false⟩) = .ok false := by
  refine ⟨fun h => ?_, by decide +kernel⟩
  have hmissed : fileContains (str "c\nd") (some ⟨str "abc\ndef", false⟩) = .ok false := by
    decide +kernel
  have hfound := (h (str "c\nd") ⟨str "abc\ndef", false⟩ (by decide) (by decide)).mpr
    ⟨str "ab", str "ef", by decide⟩
  rw [hmissed] at hfound
  exact nomatch hfound

end SmolClaw.Search
