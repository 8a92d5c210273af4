import WikiDocs.Line.Source

/-!
Pieces of the input. Bytes that end a line can be cut off the front of an input
without a change to its pieces, a piece that is no more than its terminator is
all that a blank line is read from, and the bytes of a text are read as that text.
-/

namespace WikiDocs

open Text

namespace Text.Utf8

theorem toList_encode (s : Text) : (encode s).data.toList = s.flatMap String.utf8EncodeChar :=
  List.toList_data_toByteArray

theorem toList_encode_append (s t : Text) :
    (encode (s ++ t)).data.toList = (encode s).data.toList ++ (encode t).data.toList := by
  simp only [toList_encode, List.flatMap_append]

theorem strict?_encode (s : Text) : strict? (encode s).data.toList = some s := by
  have hvalid : (encode s).IsValidUTF8 := (String.ofList s).isValidUTF8
  have hbytes : (⟨(encode s).data.toList.toArray⟩ : ByteArray) = encode s := rfl
  rw [strict?, hbytes, String.fromUTF8?, dif_pos hvalid]
  exact congrArg some String.toList_ofList

theorem encode_inj {s t : Text} : encode s = encode t ↔ s = t := by
  refine ⟨fun h => ?_, congrArg encode⟩
  have hread := strict?_encode s
  rw [h, strict?_encode] at hread
  exact (Option.some.inj hread).symm

theorem toList_encode_of_strict? {bytes : List UInt8} {s : Text} (h : strict? bytes = some s) :
    (encode s).data.toList = bytes := by
  obtain ⟨string, hs, rfl⟩ := Option.map_eq_some_iff.1 h
  rw [String.fromUTF8?] at hs
  split at hs
  · cases hs
    rw [encode, String.ofList_toList]
    rfl
  · cases hs

theorem lineFeed_eq_ofNat {n : Nat} (hn : n < 256) (h : Line.lineFeed = UInt8.ofNat n) : n = 10 := by
  have hnat := congrArg UInt8.toNat h
  rw [UInt8.toNat_ofNat_of_lt' hn] at hnat
  exact hnat.symm

/-- Only the line feed is encoded with the byte of a line feed. -/
theorem eq_of_lineFeed_mem {c : Char} (h : Line.lineFeed ∈ String.utf8EncodeChar c) :
    c = '\n' := by
  simp only [String.utf8EncodeChar] at h
  split at h
  · rename_i hsmall
    have hten := lineFeed_eq_ofNat (by omega) (List.mem_singleton.1 h)
    exact Char.ext (UInt32.toNat_inj.1 hten)
  · -- A longer encoding has no byte below 128.
    exfalso
    split at h
    · simp only [List.mem_cons, List.not_mem_nil, or_false] at h
      obtain h | h := h
      all_goals
        have hten := lineFeed_eq_ofNat (by omega) h
        omega
    · split at h
      · simp only [List.mem_cons, List.not_mem_nil, or_false] at h
        obtain h | h | h := h
        all_goals
          have hten := lineFeed_eq_ofNat (by omega) h
          omega
      · simp only [List.mem_cons, List.not_mem_nil, or_false] at h
        obtain h | h | h | h := h
        all_goals
          have hten := lineFeed_eq_ofNat (by omega) h
          omega

theorem lineFeed_not_mem_encode {s : Text} (h : '\n' ∉ s) :
    Line.lineFeed ∉ (encode s).data.toList := by
  intro hmem
  rw [toList_encode] at hmem
  obtain ⟨c, hc, hlf⟩ := List.mem_flatMap.1 hmem
  rw [eq_of_lineFeed_mem hlf] at hc
  exact h hc

end Text.Utf8

namespace Line

theorem cutPiece_lineFeed {front rest : List UInt8} (h : lineFeed ∉ front) :
    cutPiece (front ++ lineFeed :: rest) = (front ++ [lineFeed], rest) := by
  have hfront : ∀ b ∈ front, (b != lineFeed) = true := by
    intro b hb
    simp only [bne_iff_ne, ne_eq]
    rintro rfl
    exact h hb
  have hdrop : (front ++ lineFeed :: rest).dropWhile (· != lineFeed) = lineFeed :: rest := by
    rw [List.dropWhile_append_of_pos hfront]
    rfl
  have htake : (front ++ lineFeed :: rest).takeWhile (· != lineFeed) = front := by
    rw [List.takeWhile_append_of_pos hfront]
    simp
  rw [cutPiece, hdrop, htake]

theorem cutPiece_of_not_mem {bytes : List UInt8} (h : lineFeed ∉ bytes) :
    cutPiece bytes = (bytes, []) := by
  have hall : ∀ b ∈ bytes, (b != lineFeed) = true := by
    rintro b hb
    rw [bne_iff_ne]
    rintro rfl
    exact h hb
  have hdrop : bytes.dropWhile (· != lineFeed) = [] := by
    rw [← List.append_nil bytes, List.dropWhile_append_of_pos hall]
    rfl
  rw [cutPiece, hdrop]

theorem cutPiece_append_of_mem {front : List UInt8} (h : lineFeed ∈ front) (rest : List UInt8) :
    cutPiece (front ++ rest) = ((cutPiece front).1, (cutPiece front).2 ++ rest) := by
  obtain ⟨before, after, rfl, hbefore⟩ := List.eq_append_cons_of_mem h
  rw [List.append_assoc, List.cons_append, cutPiece_lineFeed hbefore, cutPiece_lineFeed hbefore]

theorem cutPiece_append_of_not_mem {front : List UInt8} (h : lineFeed ∉ front)
    (rest : List UInt8) :
    cutPiece (front ++ rest) = (front ++ (cutPiece rest).1, (cutPiece rest).2) := by
  by_cases hrest : lineFeed ∈ rest
  · obtain ⟨before, after, rfl, hbefore⟩ := List.eq_append_cons_of_mem hrest
    have hfront : lineFeed ∉ front ++ before := by
      rw [List.mem_append, not_or]
      exact ⟨h, hbefore⟩
    rw [← List.append_assoc, cutPiece_lineFeed hfront, cutPiece_lineFeed hbefore,
      List.append_assoc]
  · have hnone : lineFeed ∉ front ++ rest := by
      rw [List.mem_append, not_or]
      exact ⟨h, hrest⟩
    rw [cutPiece_of_not_mem hnone, cutPiece_of_not_mem hrest]

theorem pieces_nil : pieces [] = [] := by
  rw [pieces.eq_def, dif_pos rfl]

theorem pieces_cut {bytes : List UInt8} (h : bytes ≠ []) :
    pieces bytes = (cutPiece bytes).1 :: pieces (cutPiece bytes).2 := by
  rw [pieces.eq_def, dif_neg h]

theorem pieces_lineFeed {front rest : List UInt8} (h : lineFeed ∉ front) :
    pieces (front ++ lineFeed :: rest) = (front ++ [lineFeed]) :: pieces rest := by
  rw [pieces_cut (by simp), cutPiece_lineFeed h]

theorem pieces_of_not_mem {bytes : List UInt8} (hne : bytes ≠ []) (h : lineFeed ∉ bytes) :
    pieces bytes = [bytes] := by
  rw [pieces_cut hne, cutPiece_of_not_mem h, pieces_nil]

theorem flatten_pieces (bytes : List UInt8) : (pieces bytes).flatten = bytes := by
  fun_induction pieces bytes with
  | case1 => rfl
  | case2 bytes _ ih => rw [List.flatten_cons, ih, cutPiece_append]

theorem ne_nil_of_mem_pieces {bytes piece : List UInt8} (h : piece ∈ pieces bytes) :
    piece ≠ [] := by
  fun_induction pieces bytes with
  | case1 => cases h
  | case2 bytes hne ih =>
      obtain rfl | h := List.mem_cons.1 h
      · intro hnil
        have hlt := cutPiece_rest_lt hne
        have happ := cutPiece_append bytes
        rw [hnil, List.nil_append] at happ
        rw [happ] at hlt
        exact absurd hlt (Nat.lt_irrefl _)
      · exact ih h

/-- What ends with a line feed is cut into pieces of its own. -/
theorem pieces_append (front rest : List UInt8) :
    pieces (front ++ [lineFeed] ++ rest) = pieces (front ++ [lineFeed]) ++ pieces rest := by
  by_cases h : lineFeed ∈ front
  · obtain ⟨first, others, rfl, hfirst⟩ := List.eq_append_cons_of_mem h
    have ih := pieces_append others rest
    simp only [List.append_assoc, List.cons_append] at ih ⊢
    rw [pieces_lineFeed hfirst, pieces_lineFeed hfirst, ih, List.cons_append]
  · have hone : pieces (front ++ [lineFeed]) = [front ++ [lineFeed]] := by
      rw [pieces_lineFeed h, pieces_nil]
    rw [hone, List.append_assoc]
    exact pieces_lineFeed h
termination_by front.length
decreasing_by
  have hlen := congrArg List.length ‹front = first ++ lineFeed :: others›
  rw [List.length_append, List.length_cons] at hlen
  omega

/-- The number of physical lines: one for each line feed, and one for what stands behind them. -/
def total (bytes : List UInt8) : Nat :=
  bytes.count lineFeed + if bytes = [] ∨ bytes.getLast? = some lineFeed then 0 else 1

theorem total_lineFeed {front : List UInt8} (h : lineFeed ∉ front) (rest : List UInt8) :
    total (front ++ lineFeed :: rest) = total rest + 1 := by
  have hcount : (front ++ lineFeed :: rest).count lineFeed = rest.count lineFeed + 1 := by
    rw [List.count_append, List.count_eq_zero.2 h, List.count_cons_self, Nat.zero_add]
  have hlast : (front ++ lineFeed :: rest).getLast? = some lineFeed ↔
      rest = [] ∨ rest.getLast? = some lineFeed := by
    cases rest with
    | nil => simp
    | cons b rest => simp [List.getLast?_append, List.getLast?_cons_cons]
  simp only [total, hcount, hlast]
  simp [Nat.add_right_comm]

/-- The input is cut into its physical lines. -/
theorem length_pieces (bytes : List UInt8) : (pieces bytes).length = total bytes := by
  by_cases h : lineFeed ∈ bytes
  · obtain ⟨front, rest, rfl, hfront⟩ := List.eq_append_cons_of_mem h
    rw [pieces_lineFeed hfront, List.length_cons, length_pieces rest, total_lineFeed hfront]
  · cases bytes with
    | nil =>
        rw [pieces_nil]
        rfl
    | cons b bytes =>
        have hlast : (b :: bytes).getLast? ≠ some lineFeed :=
          fun hlast => h (List.mem_of_getLast? hlast)
        rw [pieces_of_not_mem (List.cons_ne_nil b bytes) h, total, List.count_eq_zero.2 h,
          if_neg (not_or.2 ⟨List.cons_ne_nil b bytes, hlast⟩)]
        rfl
termination_by bytes.length
decreasing_by
  have hlen := congrArg List.length ‹bytes = front ++ lineFeed :: rest›
  rw [List.length_append, List.length_cons] at hlen
  omega

/-- A piece that is no more than the terminator of a line. -/
def IsBlank (piece : List UInt8) : Prop := piece = [lineFeed] ∨ piece = [13, lineFeed]

instance (piece : List UInt8) : Decidable (IsBlank piece) := inferInstanceAs (Decidable (_ ∨ _))

theorem plain_eq (c : Char) : plain c = [c] ∨ (c, plain c) ∈ substitutions := by
  rw [plain]
  cases h : substitutions.lookup c with
  | none => exact .inl rfl
  | some spelling =>
      obtain ⟨front, rest, hs, -⟩ := List.lookup_eq_some_iff.1 h
      exact .inr (by simp [hs])

theorem plain_ne_nil (c : Char) : plain c ≠ [] := by
  obtain hself | hmem := plain_eq c
  · rw [hself]
    exact List.cons_ne_nil c []
  · have hall : ∀ pair ∈ substitutions, pair.2 ≠ [] := by decide
    exact hall _ hmem

theorem substitute_eq_nil {line : Text} (h : substitute line = []) : line = [] := by
  cases line with
  | nil => rfl
  | cons c line =>
      rw [substitute, List.flatMap_cons, List.append_eq_nil_iff] at h
      exact absurd h.1 (plain_ne_nil c)

theorem expandEscapes_eq_nil {lineBreak line : Text} (hl : lineBreak ≠ [])
    (h : expandEscapes lineBreak line = []) : line = [] := by
  fun_cases expandEscapes lineBreak line with
  | case1 => rfl
  | case2 c => cases h
  | case3 c d line hc =>
      rw [expandEscapes, if_pos hc, List.append_eq_nil_iff] at h
      exact absurd h.1 hl
  | case4 c d line hc =>
      rw [expandEscapes, if_neg hc] at h
      cases h

theorem normalize_eq_nil {expand : Bool} {line : Text} (h : normalize expand line = []) :
    line = [] := by
  have hs := substitute_eq_nil h
  split at hs
  · exact expandEscapes_eq_nil (List.cons_ne_nil _ _) hs
  · exact hs

theorem dropTerminator_feed {line : Text} (h : line.getLast? ≠ some '\r') :
    dropTerminator (line ++ ['\n']) = line := by
  rw [dropTerminator, if_pos List.getLast?_concat, List.dropLast_concat, dropReturn, if_neg h]

theorem dropTerminator_returned (line : Text) : dropTerminator (line ++ ['\r', '\n']) = line := by
  have hsplit : line ++ ['\r', '\n'] = line ++ ['\r'] ++ ['\n'] := by simp
  rw [hsplit, dropTerminator, if_pos List.getLast?_concat, List.dropLast_concat, dropReturn,
    if_pos List.getLast?_concat, List.dropLast_concat]

/-- A line without content: nothing, or a terminator alone. -/
theorem dropTerminator_eq_nil {line : Text} (h : dropTerminator line = []) :
    line = [] ∨ line = ['\n'] ∨ line = ['\r', '\n'] := by
  simp only [dropTerminator] at h
  split at h
  · rename_i hlast
    obtain ⟨front, rfl⟩ := List.getLast?_eq_some_iff.1 hlast
    rw [List.dropLast_concat, dropReturn] at h
    right
    split at h
    · rename_i hreturn
      obtain ⟨front, rfl⟩ := List.getLast?_eq_some_iff.1 hreturn
      rw [List.dropLast_concat] at h
      rw [h]
      exact .inr rfl
    · rw [h]
      exact .inl rfl
  · exact .inl h

theorem ofPiece_of_isBlank {expand : Bool} {piece : List UInt8} (h : IsBlank piece) :
    ofPiece expand piece = .ok [] := by
  obtain rfl | rfl := h
  · have hs : Utf8.strict? [lineFeed] = some ['\n'] := Utf8.strict?_encode ['\n']
    rw [ofPiece, hs]
    cases expand <;> rfl
  · have hs : Utf8.strict? [13, lineFeed] = some ['\r', '\n'] := Utf8.strict?_encode ['\r', '\n']
    rw [ofPiece, hs]
    cases expand <;> rfl

/-- Only a blank line is read as an empty one. -/
theorem isBlank_of_ofPiece {expand : Bool} {piece : List UInt8} (hne : piece ≠ [])
    (h : ofPiece expand piece = .ok []) : IsBlank piece := by
  rw [ofPiece] at h
  split at h
  · cases h
  · rename_i line hs
    have hbytes := Utf8.toList_encode_of_strict? hs
    cases hn : normalize expand (dropTerminator line) with
    | cons c more =>
        rw [hn] at h
        cases h
    | nil =>
        obtain rfl | rfl | rfl := dropTerminator_eq_nil (normalize_eq_nil hn)
        · exact absurd hbytes.symm hne
        · exact .inl hbytes.symm
        · exact .inr hbytes.symm

end Line
end WikiDocs
