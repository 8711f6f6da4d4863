import ApiBaseline.Proofs.Json.RoundTrip

/-!
# Values written in one line are read back

In one line nothing stands between the tokens of a value, and every word in it is
followed by punctuation or by the end of the text. So the text is cut into the same
tokens as the one over several lines (`scan_lineChars`), and read as the same value
(`parse_line`).
-/

namespace ApiBaseline.Json

theorem endsWord_lineItems (vs : List Json) {rest : List Char} (h : EndsWord rest) :
    EndsWord (lineItems vs ++ rest) := by
  cases vs with
  | nil => exact h
  | cons v vs => exact endsWord_cons rfl

theorem endsWord_lineFields (fs : List (String × Json)) {rest : List Char} (h : EndsWord rest) :
    EndsWord (lineFields fs ++ rest) := by
  cases fs with
  | nil => exact h
  | cons f fs => exact endsWord_cons rfl

/-- The characters before a field's value are its name and the colon. -/
theorem scans_lineName (k : String) :
    Token.Scans .between (quotedChars k ++ [':']) [.scalar (text k), .colon] .between :=
  (Token.scans_quoted k).append (scans_punctuation rfl)

mutual

/-- A legible value is cut into its tokens. -/
theorem scan_lineChars : (v : Json) → v.Legible → ∀ (done : List Token) {rest : List Char},
    EndsWord rest → Token.Mode.between.scan done (v.lineChars ++ rest)
      = Token.Mode.between.scan (v.tokenList.reverse ++ done) rest
  | null, _, done, _, hrest => scan_word isWord_null hrest done
  | boolean true, _, done, _, hrest => scan_word isWord_true hrest done
  | boolean false, _, done, _, hrest => scan_word isWord_false hrest done
  | number _, h, done, _, hrest => scan_word h hrest done
  | text s, _, done, rest, _ => Token.scans_quoted s done rest
  | array [], _, done, rest, _ =>
      (scans_punctuation (c := '[') rfl).append (scans_punctuation (c := ']') rfl) done rest
  | array (v :: vs), h, done, rest, _ => by
      have hopen : Token.Scans .between ['['] [.openBracket] .between := scans_punctuation rfl
      have hclose : Token.Scans .between [']'] [.closeBracket] .between := scans_punctuation rfl
      have hends : EndsWord ([']'] ++ rest) := endsWord_cons rfl
      have hchars : (array (v :: vs)).lineChars ++ rest
          = ['['] ++ (v.lineChars ++ (lineItems vs ++ ([']'] ++ rest))) := by
        simp [lineChars]
      have htokens : (array (v :: vs)).tokenList.reverse ++ done
          = .closeBracket :: ((furtherItems vs).reverse
            ++ (v.tokenList.reverse ++ .openBracket :: done)) := by
        simp [tokenList]
      rw [hchars, hopen, scan_lineChars v h.1 _ (endsWord_lineItems vs hends),
        scan_lineItems vs h.2 _ hends, hclose, htokens]
      rfl
  | object [], _, done, rest, _ =>
      (scans_punctuation (c := '\x7b') rfl).append (scans_punctuation (c := '\x7d') rfl)
        done rest
  | object ((k, v) :: fs), h, done, rest, _ => by
      have hopen : Token.Scans .between ['\x7b'] [.openBrace] .between := scans_punctuation rfl
      have hclose : Token.Scans .between ['\x7d'] [.closeBrace] .between := scans_punctuation rfl
      have hends : EndsWord (['\x7d'] ++ rest) := endsWord_cons rfl
      have hchars : (object ((k, v) :: fs)).lineChars ++ rest
          = ['\x7b'] ++ ((quotedChars k ++ [':'])
            ++ (v.lineChars ++ (lineFields fs ++ (['\x7d'] ++ rest)))) := by
        simp [lineChars]
      have htokens : (object ((k, v) :: fs)).tokenList.reverse ++ done
          = .closeBrace :: ((furtherFields fs).reverse ++ (v.tokenList.reverse
            ++ .colon :: .scalar (text k) :: .openBrace :: done)) := by
        simp [tokenList]
      rw [hchars, hopen, scans_lineName, scan_lineChars v h.1 _ (endsWord_lineFields fs hends),
        scan_lineFields fs h.2 _ hends, hclose, htokens]
      rfl
  | broken, h, _, _, _ => h.elim
  | brokenObject _, h, _, _, _ => h.elim

theorem scan_lineItems : (vs : List Json) → ItemsLegible vs → ∀ (done : List Token)
    {rest : List Char}, EndsWord rest →
    Token.Mode.between.scan done (lineItems vs ++ rest)
      = Token.Mode.between.scan ((furtherItems vs).reverse ++ done) rest
  | [], _, _, _, _ => rfl
  | v :: vs, h, done, rest, hrest => by
      have hcomma : Token.Scans .between [','] [.comma] .between := scans_punctuation rfl
      have hchars : lineItems (v :: vs) ++ rest
          = [','] ++ (v.lineChars ++ (lineItems vs ++ rest)) := by
        simp [lineItems]
      rw [hchars, hcomma, scan_lineChars v h.1 _ (endsWord_lineItems vs hrest),
        scan_lineItems vs h.2 _ hrest]
      simp [furtherItems]

theorem scan_lineFields : (fs : List (String × Json)) → FieldsLegible fs →
    ∀ (done : List Token) {rest : List Char}, EndsWord rest →
    Token.Mode.between.scan done (lineFields fs ++ rest)
      = Token.Mode.between.scan ((furtherFields fs).reverse ++ done) rest
  | [], _, _, _, _ => rfl
  | (k, v) :: fs, h, done, rest, hrest => by
      have hcomma : Token.Scans .between [','] [.comma] .between := scans_punctuation rfl
      have hchars : lineFields ((k, v) :: fs) ++ rest
          = [','] ++ ((quotedChars k ++ [':'])
            ++ (v.lineChars ++ (lineFields fs ++ rest))) := by
        simp [lineFields]
      rw [hchars, hcomma, scans_lineName,
        scan_lineChars v h.1 _ (endsWord_lineFields fs hrest), scan_lineFields fs h.2 _ hrest]
      simp [furtherFields]

end

theorem parse_line {v : Json} (h : v.Legible) : parse v.line = ⟨v, true⟩ := by
  refine parse_of_tokens h ?_
  have hend : EndsWord [] := nofun
  have hscan := scan_lineChars v h [] hend
  rw [List.append_nil] at hscan
  rw [tokens, line, String.toList_ofList, hscan]
  simp [Token.Mode.scan, Token.Mode.finish]

end ApiBaseline.Json
