import FirmwareTasks.Proofs.Toml.Keys
import FirmwareTasks.Proofs.Toml.Number
import FirmwareTasks.Proofs.Toml.Quoting
/-!
Documents are written from values, and read as what was written. A value is written on one line,
keys and texts in quotes; a document has its pairs first and then its tables, each below a header.
-/
namespace FirmwareTasks.Toml

/-- A value and how it is written. -/
structure Written where
  text : List Char
  value : Value

namespace Written

def commas : List (List Char) → List Char
  | [] => []
  | [w] => w
  | w :: ws => w ++ ',' :: ' ' :: commas ws

def pair (key : String) (w : Written) : List Char := quoted key ++ ' ' :: '=' :: ' ' :: w.text

def ofText (s : String) : Written := ⟨quoted s, .text s⟩

def ofNat (n : Nat) : Written := ⟨Nat.toDigits 10 n, .integer n⟩

def ofList (ws : List Written) : Written :=
  ⟨'[' :: (commas (ws.map text) ++ [']']), .array (ws.map value)⟩

def values (ps : List (String × Written)) : List (String × Value) :=
  ps.map fun p => (p.1, p.2.value)

def ofPairs (ps : List (String × Written)) : Written :=
  ⟨'{' :: (commas (ps.map fun p => pair p.1 p.2) ++ ['}']), .table (values ps)⟩

/-- What may follow a value. -/
def closers : List Char := [',', ']', '}', '\n']

/-- The first character shows what kind of value is written. -/
def opens (c : Char) : Bool := c == '"' || c == '[' || c == '{' || c.isDigit

/-- What is written is read as the value, with brackets at most `depth` deep. -/
structure Reads (depth : Nat) (w : Written) : Prop where
  starts : ∃ c r, w.text = c :: r ∧ opens c = true
  takes : ∀ c ∈ closers, ∀ r, takeValue depth (w.text ++ c :: r) = some (w.value, c :: r)

variable {depth : Nat} {w : Written} {c : Char} {r : List Char}

lemma takeValue_of_leaf {s : List Char} (h : ∀ u, s ≠ '[' :: u ∧ s ≠ '{' :: u) :
    takeValue depth s = takeLeaf s := by
  cases depth with
  | zero => rfl
  | succ depth =>
    unfold takeValue
    split
    · exact absurd rfl (h _).1
    · exact absurd rfl (h _).2
    · rfl

theorem reads_ofText (depth : Nat) (s : String) : (ofText s).Reads depth where
  starts := ⟨'"', _, rfl, rfl⟩
  takes c hc r := by
    have hquote : (c :: r).head? ≠ some '"' := by
      rintro h
      cases h
      revert hc
      decide
    rw [takeValue_of_leaf fun u => by simp [ofText, quoted]]
    have hleaf : takeLeaf ((ofText s).text ++ c :: r) =
        (takeText (quoted s ++ c :: r)).map fun p => (Value.text p.1, p.2) := rfl
    rw [hleaf, takeText_quoted s hquote]
    rfl

theorem reads_ofNat (depth : Nat) {n : Nat} (hn : n < 9223372036854775808) :
    (ofNat n).Reads depth := by
  obtain ⟨d, ds, hds⟩ := List.exists_cons_of_ne_nil (Nat.toDigits_ne_nil (n := n) (b := 10))
  have hdigit : d.isDigit = true := isDigit_of_mem (n := n) (by simp [hds])
  constructor
  · exact ⟨d, ds, hds, by simp [opens, hdigit]⟩
  · intro c hc r
    have hcloses : isWordChar c = false ∧ c ≠ ' ' := by
      simp only [closers, List.mem_cons, List.not_mem_nil, or_false] at hc
      rcases hc with rfl | rfl | rfl | rfl <;> decide
    have hne {e : Char} (he : e.isDigit = false) : d ≠ e := by
      rintro rfl
      rw [hdigit] at he
      cases he
    have hleaf : takeLeaf ((ofNat n).text ++ c :: r) =
        (scalar? (Nat.toDigits 10 n)).map (·, c :: r) := by
      have htake := takeWord_toDigits n hcloses.1 hcloses.2 (r := r)
      change takeLeaf (Nat.toDigits 10 n ++ c :: r) = _
      rw [hds, List.cons_append] at htake ⊢
      simp [takeLeaf, hne (e := '"') rfl, hne (e := '\'') rfl, htake]
    rw [takeValue_of_leaf fun u => ?_, hleaf, scalar?_toDigits hn]
    · rfl
    · simp [ofNat, hds, hne (e := '[') rfl, hne (e := '{') rfl]

/-! Between values stand blanks, which the readers drop. -/

lemma opens_ne (h : opens c = true) {d : Char} (hd : opens d = false) : c ≠ d := by
  rintro rfl
  rw [h] at hd
  cases hd

lemma dropSpace_of_opens (h : opens c = true) (r : List Char) :
    dropSpace false (c :: r) = some (c :: r) := by
  have hblank : isBlankChar c = false := by
    simp [isBlankChar, opens_ne h (d := ' ') rfl, opens_ne h (d := '\t') rfl]
  have hreturn := opens_ne h (d := '\r') rfl
  have hbreak := opens_ne h (d := '\n') rfl
  have hcomment := opens_ne h (d := '#') rfl
  simp [dropSpace, hreturn, hbreak, hcomment, hblank]

lemma dropBlanks_of_opens (h : opens c = true) (r : List Char) :
    dropBlanks (c :: r) = c :: r := by
  have hblank : isBlankChar c = false := by
    simp [isBlankChar, opens_ne h (d := ' ') rfl, opens_ne h (d := '\t') rfl]
  simp [dropBlanks, hblank]

/-! ## Arrays -/

lemma takeItems_blank (item : Reader Value) (fuel : Nat) (s : List Char) :
    takeItems item fuel (' ' :: s) = takeItems item fuel s := by
  cases fuel with
  | zero => rfl
  | succ fuel =>
    have hdrop : dropSpace false (' ' :: s) = dropSpace false s := by
      rw [dropSpace] <;> simp [isBlankChar]
    rw [takeItems, takeItems, hdrop]

lemma takeItems_more (h : w.Reads depth) (fuel : Nat) (s : List Char) :
    takeItems (takeValue depth) (fuel + 1) (w.text ++ ',' :: s) =
      (takeItems (takeValue depth) fuel s).map fun (vs, r) => (w.value :: vs, r) := by
  obtain ⟨c, u, hu, hc⟩ := h.starts
  have htake := h.takes ',' (by decide) s
  have hclose := opens_ne hc (d := ']') rfl
  rw [hu, List.cons_append] at htake ⊢
  have hcomma : dropSpace false (',' :: s) = some (',' :: s) := rfl
  simp [takeItems, dropSpace_of_opens hc, hclose, htake, hcomma]

lemma takeItems_last (h : w.Reads depth) (fuel : Nat) (s : List Char) :
    takeItems (takeValue depth) (fuel + 1) (w.text ++ ']' :: s) = some ([w.value], s) := by
  obtain ⟨c, u, hu, hc⟩ := h.starts
  have htake := h.takes ']' (by decide) s
  have hclose := opens_ne hc (d := ']') rfl
  rw [hu, List.cons_append] at htake ⊢
  have hend : dropSpace false (']' :: s) = some (']' :: s) := rfl
  simp [takeItems, dropSpace_of_opens hc, hclose, htake, hend]

lemma takeItems_commas {ws : List Written} (h : ∀ w ∈ ws, w.Reads depth) {fuel : Nat}
    (hfuel : ws.length < fuel) (s : List Char) :
    takeItems (takeValue depth) fuel (commas (ws.map text) ++ ']' :: s) =
      some (ws.map value, s) := by
  induction ws generalizing fuel with
  | nil =>
    obtain ⟨fuel, rfl⟩ := Nat.exists_eq_succ_of_ne_zero (Nat.ne_of_gt hfuel)
    rfl
  | cons w ws ih =>
    rw [List.forall_mem_cons] at h
    obtain ⟨fuel, rfl⟩ := Nat.exists_eq_succ_of_ne_zero (Nat.ne_zero_of_lt hfuel)
    rw [List.length_cons, Nat.succ_lt_succ_iff] at hfuel
    cases ws with
    | nil => exact takeItems_last h.1 fuel s
    | cons w' ws =>
      have hcommas : commas ((w :: w' :: ws).map text) ++ ']' :: s =
          w.text ++ ',' :: ' ' :: (commas ((w' :: ws).map text) ++ ']' :: s) := by
        simp [commas]
      rw [hcommas, takeItems_more h.1, takeItems_blank, ih h.2 hfuel]
      rfl

lemma length_le_commas {ws : List (List Char)} (h : ∀ w ∈ ws, w ≠ []) :
    ws.length ≤ (commas ws).length := by
  induction ws with
  | nil => exact Nat.zero_le _
  | cons w ws ih =>
    rw [List.forall_mem_cons] at h
    have hw : 0 < w.length := List.length_pos_iff.2 h.1
    cases ws with
    | nil => exact hw
    | cons w' ws =>
      have hrest := ih h.2
      simp only [commas, List.length_append, List.length_cons] at hrest ⊢
      omega

lemma Reads.text_ne_nil (h : w.Reads depth) : w.text ≠ [] := by
  obtain ⟨c, r, hr, -⟩ := h.starts
  simp [hr]

theorem reads_ofList {ws : List Written} (h : ∀ w ∈ ws, w.Reads depth) :
    (ofList ws).Reads (depth + 1) where
  starts := ⟨'[', _, rfl, rfl⟩
  takes c _ r := by
    have htext : (ofList ws).text ++ c :: r =
        '[' :: (commas (ws.map text) ++ ']' :: c :: r) := by simp [ofList]
    have hne : ∀ t ∈ ws.map text, t ≠ [] := by
      intro t ht
      obtain ⟨w, hw, rfl⟩ := List.mem_map.1 ht
      exact (h w hw).text_ne_nil
    have hfuel : ws.length < (commas (ws.map text) ++ ']' :: c :: r).length + 1 := by
      have hlength := length_le_commas hne
      rw [List.length_map] at hlength
      rw [List.length_append]
      omega
    rw [htext, takeValue, takeItems_commas h hfuel]
    rfl

/-! ## Pairs and tables -/

lemma takeKey_quoted (limit : Nat) (key : String) {s u : List Char}
    (hs : dropBlanks s = c :: u) (hc : c ≠ '.') :
    takeKey (limit + 1) (quoted key ++ s) = some ([key], c :: u) := by
  have hblanks : dropBlanks (quoted key ++ s) = quoted key ++ s :=
    dropBlanks_of_opens (c := '"') rfl _
  simp [takeKey, hblanks, takeKeyPart_quoted, hs, hc]

lemma takePair_blank (value : Reader Value) (s : List Char) :
    takePair value (' ' :: s) = takePair value s := rfl

lemma takePair_pair (h : w.Reads depth) (key : String) (hc : c ∈ closers) (r : List Char) :
    takePair (takeValue depth) (pair key w ++ c :: r) = some (([key], w.value), c :: r) := by
  obtain ⟨d, u, hu, hd⟩ := h.starts
  have htake := h.takes c hc r
  have hkey : takeKey depthLimit (quoted key ++ ' ' :: '=' :: ' ' :: (w.text ++ c :: r)) =
      some ([key], '=' :: ' ' :: (w.text ++ c :: r)) :=
    takeKey_quoted 78 key (by simp [dropBlanks, isBlankChar]) (by decide)
  have hvalue : dropBlanks (' ' :: (w.text ++ c :: r)) = w.text ++ c :: r := by
    have hdrop := dropBlanks_of_opens hd (u ++ c :: r)
    rw [hu, List.cons_append]
    simpa [dropBlanks, isBlankChar] using hdrop
  simp [takePair, pair, hkey, expect?, hvalue, htake]

lemma takePairs_blank (value : Reader Value) (fuel : Nat) (s : List Char) :
    takePairs value fuel (' ' :: s) = takePairs value fuel s := by
  cases fuel with
  | zero => rfl
  | succ fuel => rw [takePairs, takePairs, takePair_blank]

/-- The pairs as they are read, each with a key of one part. -/
def readPairs (ps : List (String × Written)) : List (List String × Value) :=
  ps.map fun p => ([p.1], p.2.value)

lemma takePairs_commas {ps : List (String × Written)} (h : ∀ p ∈ ps, p.2.Reads depth)
    (hne : ps ≠ []) {fuel : Nat} (hfuel : ps.length ≤ fuel) (s : List Char) :
    takePairs (takeValue depth) fuel (commas (ps.map fun p => pair p.1 p.2) ++ '}' :: s) =
      some (readPairs ps, s) := by
  induction ps generalizing fuel with
  | nil => exact absurd rfl hne
  | cons p ps ih =>
    rw [List.forall_mem_cons] at h
    obtain ⟨fuel, rfl⟩ := Nat.exists_eq_succ_of_ne_zero (Nat.ne_zero_of_lt hfuel)
    rw [List.length_cons, Nat.succ_le_succ_iff] at hfuel
    cases ps with
    | nil =>
      have hpair := takePair_pair h.1 p.1 (c := '}') (by decide) s
      simp [commas, takePairs, hpair, dropBlanks, isBlankChar, readPairs]
    | cons q ps =>
      have hcommas : commas ((p :: q :: ps).map fun p => pair p.1 p.2) ++ '}' :: s =
          pair p.1 p.2 ++ ',' :: ' ' ::
            (commas ((q :: ps).map fun p => pair p.1 p.2) ++ '}' :: s) := by
        simp [commas]
      have hpair := takePair_pair h.1 p.1 (c := ',') (by decide)
        (' ' :: (commas ((q :: ps).map fun p => pair p.1 p.2) ++ '}' :: s))
      have hrest := ih h.2 (by simp) hfuel
      rw [hcommas, takePairs, hpair]
      have hdrop (u : List Char) : dropBlanks (',' :: u) = ',' :: u := rfl
      simp only [Option.bind_eq_bind, Option.bind_some, hdrop, takePairs_blank, hrest]
      rfl

end Written

namespace Entries
variable {ps : List (String × Written)}

/-- The nodes of entries that are written in pairs. -/
def ofWritten (ps : List (String × Written)) : Entries :=
  ps.map fun p => (p.1, .value p.2.value)

lemma putAll?_readPairs {es : Entries} (h : UniqueKeys (es ++ ofWritten ps)) :
    putAll? (Written.readPairs ps) es = some (es ++ ofWritten ps) := by
  induction ps generalizing es with
  | nil => simp [Written.readPairs, ofWritten, putAll?]
  | cons p ps ih =>
    have hput : put? p.2.value [p.1] es = some (es ++ [(p.1, .value p.2.value)]) := by
      rw [put?, UniqueKeys.lookup_eq_none h]
      rfl
    have hassoc : es ++ ofWritten (p :: ps) =
        (es ++ [(p.1, .value p.2.value)]) ++ ofWritten ps := by simp [ofWritten]
    rw [hassoc] at h ⊢
    rw [← ih h]
    simp [Written.readPairs, putAll?, hput]

lemma toValues_ofWritten (ps : List (String × Written)) :
    (ofWritten ps).toValues = Written.values ps := by
  simp [toValues_eq, ofWritten, Written.values, ofNode]

lemma uniqueKeys_ofWritten : UniqueKeys (ofWritten ps) ↔ UniqueKeys (Written.values ps) := by
  simp [UniqueKeys, ofWritten, Written.values, Function.comp_def]

end Entries

namespace Written
variable {depth : Nat} {ps : List (String × Written)}

lemma takeBraces_pairs (h : ∀ p ∈ ps, p.2.Reads depth) (s : List Char) :
    takeBraces (takeValue depth) (commas (ps.map fun p => pair p.1 p.2) ++ '}' :: s) =
      some (readPairs ps, s) := by
  cases ps with
  | nil => rfl
  | cons p ps =>
    have hne : ∀ t ∈ (p :: ps).map fun p => pair p.1 p.2, t ≠ [] := by
      intro t ht
      obtain ⟨q, -, rfl⟩ := List.mem_map.1 ht
      simp [pair, quoted]
    have hfuel : (p :: ps).length ≤
        (commas ((p :: ps).map fun p => pair p.1 p.2) ++ '}' :: s).length := by
      have hlength := length_le_commas hne
      rw [List.length_map] at hlength
      rw [List.length_append]
      omega
    obtain ⟨u, hu⟩ : ∃ u, commas ((p :: ps).map fun p => pair p.1 p.2) = '"' :: u := by
      cases ps <;> exact ⟨_, rfl⟩
    have hpairs := takePairs_commas h (by simp) hfuel s
    rw [hu] at hpairs ⊢
    exact hpairs

/-- A table in braces is read if its values are, one bracket deeper. -/
theorem reads_ofPairs (hkeys : UniqueKeys (values ps)) (h : ∀ p ∈ ps, p.2.Reads depth) :
    (ofPairs ps).Reads (depth + 1) where
  starts := ⟨'{', _, rfl, rfl⟩
  takes c _ r := by
    have htext : (ofPairs ps).text ++ c :: r =
        '{' :: (commas (ps.map fun p => pair p.1 p.2) ++ '}' :: c :: r) := by simp [ofPairs]
    have hentries : Entries.ofPairs? (readPairs ps) = some ([] ++ Entries.ofWritten ps) :=
      Entries.putAll?_readPairs (Entries.uniqueKeys_ofWritten.2 hkeys)
    rw [htext, takeValue, takeBraces_pairs h]
    simp [hentries, Entries.toValues_ofWritten, ofPairs]

end Written

/-! ## Documents -/

/-- A document as it is written: pairs, and then tables below their headers. -/
structure Draft where
  pairs : List (String × Written)
  tables : List (String × List (String × Written))

namespace Draft

def pairLine (p : String × Written) : List Char := Written.pair p.1 p.2 ++ ['\n']

def headerLine (key : String) : List Char := '[' :: (quoted key ++ [']', '\n'])

/-- The lines, each with the statement that it makes. -/
def lines (d : Draft) : List (List Char × Statement) :=
  d.pairs.map (fun p => (pairLine p, .pair [p.1] p.2.value)) ++
    d.tables.flatMap fun t => (headerLine t.1, .header ⟨[t.1], false⟩) ::
      t.2.map fun p => (pairLine p, .pair [p.1] p.2.value)

def text (d : Draft) : String := .ofList (d.lines.flatMap Prod.fst)

def values (d : Draft) : List (String × Value) :=
  Written.values d.pairs ++ d.tables.map fun t => (t.1, .table (Written.values t.2))

/-- A line is read as its statement, whatever follows. -/
def IsLine (line : List Char × Statement) : Prop :=
  ∀ fuel s, takeStatements (fuel + 1) (line.1 ++ s) =
    (takeStatements fuel s).map (line.2 :: ·)

lemma isLine_pair {p : String × Written} (h : p.2.Reads depthLimit) :
    IsLine (pairLine p, .pair [p.1] p.2.value) := by
  intro fuel s
  have hline : pairLine p ++ s = Written.pair p.1 p.2 ++ '\n' :: s := by simp [pairLine]
  have hpair := Written.takePair_pair h p.1 (c := '\n') (by decide) s
  obtain ⟨u, hu⟩ : ∃ u, Written.pair p.1 p.2 ++ '\n' :: s = '"' :: u := ⟨_, rfl⟩
  have hend : endLine ('\n' :: s) = some s := rfl
  rw [hu] at hline hpair
  have hdrop : dropBlanks ('"' :: u) = '"' :: u := Written.dropBlanks_of_opens rfl u
  rw [hline]
  cases hrest : takeStatements fuel s <;> simp [takeStatements, hdrop, hpair, hend, hrest]

lemma isLine_header (key : String) : IsLine (headerLine key, .header ⟨[key], false⟩) := by
  intro fuel s
  have hline : headerLine key ++ s = '[' :: (quoted key ++ ']' :: '\n' :: s) := by
    simp [headerLine]
  have hkey :
      takeKey depthLimit (quoted key ++ ']' :: '\n' :: s) = some ([key], ']' :: '\n' :: s) :=
    Written.takeKey_quoted 78 key rfl (by decide)
  have hheader : takeHeader (quoted key ++ ']' :: '\n' :: s) =
      some (⟨[key], false⟩, '\n' :: s) := by
    obtain ⟨u, hu⟩ : ∃ u, quoted key ++ ']' :: '\n' :: s = '"' :: u := ⟨_, rfl⟩
    rw [hu] at hkey ⊢
    simp [takeHeader, hkey, expect?]
  have hend : endLine ('\n' :: s) = some s := rfl
  dsimp only
  rw [hline, takeStatements, Written.dropBlanks_of_opens rfl]
  simp only [hheader, hend, Option.bind_eq_bind, Option.bind_some]
  cases takeStatements fuel s <;> rfl

lemma IsLine.ne_nil {line : List Char × Statement} (h : IsLine line) : line.1 ≠ [] := by
  intro hnil
  have hempty := h 0 []
  rw [hnil] at hempty
  cases hempty

lemma head_ne {ls : List (List Char × Statement)} (h : ∀ l ∈ ls, IsLine l) (s : List Char) :
    ls.flatMap Prod.fst ≠ '\ufeff' :: s := by
  intro hmark
  cases ls with
  | nil => cases hmark
  | cons l ls =>
    have hl := h l List.mem_cons_self
    obtain ⟨c, u, hu⟩ := List.exists_cons_of_ne_nil hl.ne_nil
    have hc : c = '\ufeff' := by
      rw [List.flatMap_cons, hu] at hmark
      exact (List.cons.inj hmark).1
    have hread := hl 1 []
    rw [hu, hc] at hread
    cases hread

lemma takeStatements_lines {ls : List (List Char × Statement)} (h : ∀ l ∈ ls, IsLine l)
    {fuel : Nat} (hfuel : ls.length < fuel) :
    takeStatements fuel (ls.flatMap Prod.fst) = some (ls.map Prod.snd) := by
  induction ls generalizing fuel with
  | nil =>
    obtain ⟨fuel, rfl⟩ := Nat.exists_eq_succ_of_ne_zero (Nat.ne_of_gt hfuel)
    rfl
  | cons l ls ih =>
    rw [List.forall_mem_cons] at h
    obtain ⟨fuel, rfl⟩ := Nat.exists_eq_succ_of_ne_zero (Nat.ne_zero_of_lt hfuel)
    rw [List.length_cons, Nat.succ_lt_succ_iff] at hfuel
    rw [List.flatMap_cons, h.1, ih h.2 hfuel]
    rfl

lemma length_le_flatMap {ls : List (List Char × Statement)} (h : ∀ l ∈ ls, IsLine l) :
    ls.length ≤ (ls.flatMap Prod.fst).length := by
  induction ls with
  | nil => exact Nat.zero_le _
  | cons l ls ih =>
    rw [List.forall_mem_cons] at h
    have hl : 0 < l.1.length := List.length_pos_iff.2 h.1.ne_nil
    have hrest := ih h.2
    rw [List.flatMap_cons, List.length_append, List.length_cons]
    omega

/-! The statements of a draft make its blocks, and these its entries. -/

lemma blocks_pairs (ps : List (String × Written)) (rest : List Statement) :
    blocks (ps.map (fun p => .pair [p.1] p.2.value) ++ rest) =
      (Written.readPairs ps ++ (blocks rest).1, (blocks rest).2) := by
  induction ps with
  | nil => rfl
  | cons p ps ih => simp [blocks, ih, Written.readPairs]

lemma blocks_tables (ts : List (String × List (String × Written))) :
    blocks (ts.flatMap fun t => .header ⟨[t.1], false⟩ ::
      t.2.map fun p => .pair [p.1] p.2.value) =
      ([], ts.map fun t => ⟨⟨[t.1], false⟩, Written.readPairs t.2⟩) := by
  induction ts with
  | nil => rfl
  | cons t ts ih =>
    rw [List.flatMap_cons, List.cons_append, blocks, blocks_pairs, ih]
    simp

def node (t : String × List (String × Written)) : String × Node :=
  (t.1, .table .defined (Entries.ofWritten t.2))

lemma foldlM_block? {ts : List (String × List (String × Written))} {es : Entries}
    (hkeys : UniqueKeys (es ++ ts.map node))
    (htables : ∀ t ∈ ts, UniqueKeys (Written.values t.2)) :
    (ts.map fun t => (⟨⟨[t.1], false⟩, Written.readPairs t.2⟩ : Block)).foldlM
      Entries.block? es = some (es ++ ts.map node) := by
  induction ts generalizing es with
  | nil => simp
  | cons t ts ih =>
    rw [List.forall_mem_cons] at htables
    have hlookup : es.lookup t.1 = none := UniqueKeys.lookup_eq_none hkeys
    have hput : Entries.putAll? (Written.readPairs t.2) [] = some (Entries.ofWritten t.2) :=
      Entries.putAll?_readPairs (Entries.uniqueKeys_ofWritten.2 htables.1)
    have hblock : Entries.block? es ⟨⟨[t.1], false⟩, Written.readPairs t.2⟩ =
        some (es ++ [node t]) := by
      simp [Entries.block?, Entries.within?, Entries.define?, hlookup, hput, node]
    have hassoc : es ++ (t :: ts).map node = (es ++ [node t]) ++ ts.map node := by simp
    rw [hassoc] at hkeys ⊢
    rw [List.map_cons, List.foldlM_cons, hblock]
    exact ih hkeys htables.2

lemma toValues_nodes (d : Draft) :
    Entries.toValues (Entries.ofWritten d.pairs ++ d.tables.map node) = d.values := by
  rw [Entries.toValues_eq, List.map_append, ← Entries.toValues_eq, Entries.toValues_ofWritten,
    List.map_map, values]
  refine congrArg _ (List.map_congr_left fun t _ => ?_)
  rw [Function.comp_apply, node, Entries.ofNode, Entries.toValues_ofWritten]

lemma read?_of_statements {text : String} {statements : List Statement} {es : Entries}
    (hmark : ∀ s, text.toList ≠ '\ufeff' :: s)
    (hstatements : takeStatements (text.toList.length + 1) text.toList = some statements)
    (hes : Entries.ofBlocks? (blocks statements).1 (blocks statements).2 = some es) :
    read? text = some es.toValues := by
  unfold read?
  dsimp only
  split
  · rename_i s hs
    exact absurd hs (hmark s)
  · rw [hstatements]
    simp [hes]

variable {d : Draft}

lemma blocks_lines (d : Draft) : blocks (d.lines.map Prod.snd) = (Written.readPairs d.pairs,
    d.tables.map fun t => ⟨⟨[t.1], false⟩, Written.readPairs t.2⟩) := by
  have hsnd : d.lines.map Prod.snd = d.pairs.map (fun p => .pair [p.1] p.2.value) ++
      d.tables.flatMap fun t => .header ⟨[t.1], false⟩ ::
        t.2.map fun p => .pair [p.1] p.2.value := by
    simp [lines, List.map_flatMap, Function.comp_def]
  rw [hsnd, blocks_pairs, blocks_tables]
  simp

lemma ofBlocks?_draft (hkeys : UniqueKeys d.values)
    (htables : ∀ t ∈ d.tables, UniqueKeys (Written.values t.2)) :
    Entries.ofBlocks? (Written.readPairs d.pairs)
      (d.tables.map fun t => ⟨⟨[t.1], false⟩, Written.readPairs t.2⟩) =
      some (Entries.ofWritten d.pairs ++ d.tables.map node) := by
  have hnodes : UniqueKeys (Entries.ofWritten d.pairs ++ d.tables.map node) := by
    simpa [UniqueKeys, values, Written.values, Entries.ofWritten, node, Function.comp_def]
      using hkeys
  have htop : UniqueKeys (Entries.ofWritten d.pairs) :=
    hnodes.sublist (List.Sublist.map _ (List.sublist_append_left _ _))
  have hput : Entries.putAll? (Written.readPairs d.pairs) [] = some (Entries.ofWritten d.pairs) :=
    Entries.putAll?_readPairs htop
  simp only [Entries.ofBlocks?, hput, Option.bind_eq_bind, Option.bind_some]
  exact foldlM_block? hnodes htables

/-- A draft is read as what it was written from, if its keys are apart and its values are read. -/
theorem read?_text (hkeys : UniqueKeys d.values)
    (htables : ∀ t ∈ d.tables, UniqueKeys (Written.values t.2))
    (hpairs : ∀ p ∈ d.pairs, p.2.Reads depthLimit)
    (hreads : ∀ t ∈ d.tables, ∀ p ∈ t.2, p.2.Reads depthLimit) :
    read? d.text = some d.values := by
  have hlines : ∀ l ∈ d.lines, IsLine l := by
    intro l hl
    rcases List.mem_append.1 hl with hl | hl
    · obtain ⟨p, hp, rfl⟩ := List.mem_map.1 hl
      exact isLine_pair (hpairs p hp)
    · obtain ⟨t, ht, hl⟩ := List.mem_flatMap.1 hl
      rcases List.mem_cons.1 hl with rfl | hl
      · exact isLine_header t.1
      · obtain ⟨p, hp, rfl⟩ := List.mem_map.1 hl
        exact isLine_pair (hreads t ht p hp)
  have htext : d.text.toList = d.lines.flatMap Prod.fst := String.toList_ofList
  have hstatements : takeStatements (d.text.toList.length + 1) d.text.toList =
      some (d.lines.map Prod.snd) := by
    rw [htext]
    exact takeStatements_lines hlines (Nat.lt_succ_of_le (length_le_flatMap hlines))
  rw [← toValues_nodes]
  refine read?_of_statements (fun s => htext ▸ head_ne hlines s) hstatements ?_
  rw [blocks_lines]
  exact ofBlocks?_draft hkeys htables

end Draft
end FirmwareTasks.Toml
