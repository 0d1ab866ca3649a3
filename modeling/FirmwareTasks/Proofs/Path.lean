import Mathlib.Data.List.Chain
import FirmwareTasks.Path
/-!
The names on a path. Joining paths puts the names of the second after those of the first, and the
paths outside a path stop short of its last names.
-/
namespace FirmwareTasks

namespace Bytes

/-- Cutting at a separator cuts what stands before and after it apart. -/
theorem splitOn_append_sep (sep : UInt8) (s u : Bytes) :
    splitOn sep (s ++ sep :: u) = splitOn sep s ++ splitOn sep u := by
  induction s with
  | nil => simp [splitOn]
  | cons b s ih =>
    by_cases hb : b = sep
    · simp [splitOn, hb, ih]
    · obtain ⟨part, parts, hs⟩ := List.exists_cons_of_ne_nil (splitOn_ne_nil sep s)
      rw [List.cons_append, splitOn, if_neg hb, ih, splitOn, if_neg hb, hs]
      rfl

lemma splitOn_concat {sep b : UInt8} (h : b ≠ sep) (s : Bytes) :
    ∃ parts part, splitOn sep (s ++ [b]) = parts ++ [part ++ [b]] := by
  induction s with
  | nil => exact ⟨[], [], by simp [splitOn, h]⟩
  | cons c s ih =>
    obtain ⟨parts, part, hs⟩ := ih
    rw [List.cons_append, splitOn, hs]
    split
    · exact ⟨[] :: parts, part, rfl⟩
    · cases parts with
      | nil => exact ⟨[], c :: part, rfl⟩
      | cons first parts => exact ⟨(c :: first) :: parts, part, rfl⟩

lemma join_prefix (sep : UInt8) (parts more : List Bytes) :
    join sep parts <+: join sep (parts ++ more) := by
  induction parts with
  | nil => exact List.nil_prefix
  | cons part parts ih =>
    cases parts with
    | nil =>
      cases more with
      | nil => exact List.prefix_rfl
      | cons next more => exact List.prefix_append part _
    | cons next parts =>
      rw [join, List.cons_append, List.cons_append, join, List.prefix_append_right_inj]
      exact (List.prefix_cons_inj sep).2 ih

lemma subset_of_mem_splitOn {sep : UInt8} {s part : Bytes} (h : part ∈ splitOn sep s) :
    part ⊆ s := by
  induction s generalizing part with
  | nil =>
    obtain rfl : part = [] := by simpa [splitOn] using h
    exact List.nil_subset []
  | cons b s ih =>
    obtain ⟨first, parts, hs⟩ := List.exists_cons_of_ne_nil (splitOn_ne_nil sep s)
    rw [hs] at ih
    rw [splitOn, hs] at h
    split at h
    · rcases List.mem_cons.1 h with rfl | hpart
      · exact List.nil_subset _
      · exact List.subset_cons_of_subset b (ih hpart)
    · rcases List.mem_cons.1 h with rfl | hpart
      · exact List.cons_subset_cons b (ih List.mem_cons_self)
      · exact List.subset_cons_of_subset b (ih (List.mem_cons_of_mem first hpart))

end Bytes

namespace Path

/-- A segment that is the name of an entry. -/
def IsName (s : Bytes) : Prop := s ≠ [] ∧ s ≠ dot ∧ s ≠ dotDot

instance (s : Bytes) : Decidable (IsName s) := inferInstanceAs (Decidable (_ ∧ _))

/-- A path that is made of names only, with one slash between neighbours. -/
def Ordinary (p : Path) : Prop := ∀ s ∈ p.segments, IsName s

instance (p : Path) : Decidable p.Ordinary := inferInstanceAs (Decidable (∀ _ ∈ _, _))

/-- The segments of a path that are steps. -/
def names (p : Path) : List Bytes := p.segments.filter (· ≠ [])

variable {p q : Path}

lemma steps_eq (p : Path) : p.steps = p.names ++ if p.endsInSlash then [dot] else [] := rfl

lemma mem_names {s : Bytes} : s ∈ p.names ↔ s ∈ p.segments ∧ s ≠ [] := by
  simp [names]

lemma subset_of_mem_names {s : Bytes} (h : s ∈ p.names) : s ⊆ p.bytes :=
  Bytes.subset_of_mem_splitOn (mem_names.1 h).1

lemma slash_not_mem_of_mem_names {s : Bytes} (h : s ∈ p.names) : slash ∉ s :=
  Bytes.not_mem_of_mem_splitOn (mem_names.1 h).1

lemma segments_mk_of_not_mem {n : Bytes} (h : slash ∉ n) : (⟨n⟩ : Path).segments = [n] :=
  Bytes.splitOn_of_not_mem h

lemma segments_ne_nil (p : Path) : p.segments ≠ [] := Bytes.splitOn_ne_nil slash p.bytes

@[simp] lemma names_empty : (⟨[]⟩ : Path).names = [] := rfl

lemma isEmpty_iff : p.isEmpty = true ↔ p = ⟨[]⟩ := by
  cases p
  simp [isEmpty]

lemma not_isEmpty_of_names (h : p.names ≠ []) : p.isEmpty = false := by
  rw [Bool.eq_false_iff]
  intro hempty
  rw [isEmpty_iff.1 hempty] at h
  exact h names_empty

lemma endsInSlash_iff : p.endsInSlash = true ↔ ∃ s, p.bytes = s ++ [slash] := by
  rw [endsInSlash, beq_iff_eq, List.getLast?_eq_some_iff]

lemma steps_ne_nil (h : p.isEmpty = false) : p.steps ≠ [] := by
  rw [steps_eq]
  cases hslash : p.endsInSlash with
  | true => simp
  | false =>
    obtain ⟨q, b, hb⟩ := p.bytes.eq_nil_or_concat.resolve_left (by simpa [isEmpty] using h)
    rw [List.concat_eq_append] at hb
    have hne : b ≠ slash := by
      rintro rfl
      rw [endsInSlash_iff.2 ⟨q, hb⟩] at hslash
      cases hslash
    obtain ⟨l, part, hl⟩ := Bytes.splitOn_concat hne q
    simp [names, segments, hb, hl]

theorem names_join (hq : q.isAbsolute = false) : (p.join q).names = p.names ++ q.names := by
  unfold join
  rw [if_neg (by simp [hq])]
  split
  · rename_i h
    rcases Bool.or_eq_true_iff.1 h with h | h
    · obtain rfl := isEmpty_iff.1 h
      rfl
    · obtain ⟨s, hs⟩ := endsInSlash_iff.1 h
      have hcut : slash :: q.bytes = [slash] ++ q.bytes := rfl
      simp only [names, segments, hs, List.append_assoc, ← hcut, Bytes.splitOn_append_sep]
      simp [Bytes.splitOn]
  · simp [names, segments, Bytes.splitOn_append_sep]

theorem isAbsolute_join (hq : q.isAbsolute = false) : (p.join q).isAbsolute = p.isAbsolute := by
  unfold join
  rw [if_neg (by simp [hq])]
  cases hp : p.bytes with
  | nil =>
    have hempty : p.isEmpty = true := by simp [isEmpty, hp]
    rw [hempty]
    simpa [isAbsolute, hp] using hq
  | cons b s => split <;> simp [isAbsolute, hp]

theorem endsInSlash_join (hq : q.bytes ≠ []) : (p.join q).endsInSlash = q.endsInSlash := by
  have hlast (s : Bytes) : (s ++ q.bytes).getLast? = q.bytes.getLast? :=
    List.getLast?_append_of_ne_nil s hq
  unfold join
  split
  · rfl
  · split
    · simp [endsInSlash, hlast]
    · have hcut : p.bytes ++ slash :: q.bytes = (p.bytes ++ [slash]) ++ q.bytes := by simp
      simp only [endsInSlash, hcut, hlast]

namespace Ordinary
variable (h : q.Ordinary)
include h

lemma names_eq : q.names = q.segments :=
  List.filter_eq_self.2 fun s hs => by simpa using (h s hs).1

lemma isName_of_mem {s : Bytes} (hs : s ∈ q.names) : IsName s := h s (mem_names.1 hs).1

lemma names_ne_nil : q.names ≠ [] := by
  rw [h.names_eq]
  exact q.segments_ne_nil

lemma bytes_ne_nil : q.bytes ≠ [] := by
  intro hb
  have hs : ([] : Bytes) ∈ q.segments := by simp [segments, hb, Bytes.splitOn]
  exact (h [] hs).1 rfl

lemma not_isAbsolute : q.isAbsolute = false := by
  cases hb : q.bytes with
  | nil => exact absurd hb h.bytes_ne_nil
  | cons b s =>
    have hslash : b ≠ slash := by
      rintro rfl
      have hs : ([] : Bytes) ∈ q.segments := by simp [segments, hb, Bytes.splitOn]
      exact (h [] hs).1 rfl
    simpa [isAbsolute, hb] using hslash

lemma not_endsInSlash : q.endsInSlash = false := by
  rw [Bool.eq_false_iff]
  intro hend
  obtain ⟨s, hs⟩ := endsInSlash_iff.1 hend
  have hmem : ([] : Bytes) ∈ q.segments := by
    simp [segments, hs, Bytes.splitOn_append_sep, Bytes.splitOn]
  exact (h [] hmem).1 rfl

end Ordinary

/-- A path whose last step is a name; the steps before it are the given ones. -/
structure EndsIn (p : Path) (outer : List Bytes) (s : Bytes) : Prop where
  names : p.names = outer ++ [s]
  isName : IsName s
  noSlash : p.endsInSlash = false

lemma EndsIn.steps {outer : List Bytes} {s : Bytes} (h : p.EndsIn outer s) :
    p.steps = outer ++ [s] := by
  simp [steps_eq, h.names, h.noSlash]

lemma EndsIn.not_isEmpty {outer : List Bytes} {s : Bytes} (h : p.EndsIn outer s) :
    p.isEmpty = false := not_isEmpty_of_names (by simp [h.names])

/-- Within any directory, a path made of names ends in the last of them. -/
theorem Ordinary.endsIn (h : q.Ordinary) :
    ∃ outer s, q.names = outer ++ [s] ∧ ∀ p : Path, (p.join q).EndsIn (p.names ++ outer) s := by
  obtain ⟨outer, s, hs⟩ := q.names.eq_nil_or_concat.resolve_left h.names_ne_nil
  rw [List.concat_eq_append] at hs
  refine ⟨outer, s, hs, fun p => ⟨?_, ?_, ?_⟩⟩
  · rw [names_join h.not_isAbsolute, hs, List.append_assoc]
  · exact h.isName_of_mem (by simp [hs])
  · rw [endsInSlash_join h.bytes_ne_nil, h.not_endsInSlash]

lemma inner_of_isName {s : Bytes} (h : IsName s) : inner s = some (.name s) := by
  obtain ⟨hne, hdot, hdots⟩ := h
  rw [inner, if_neg (by simp [hne, hdot]), if_neg hdots]

lemma Ordinary.filterMap_inner (h : q.Ordinary) :
    q.segments.filterMap inner = q.names.map .name := by
  rw [h.names_eq, ← List.filterMap_eq_map]
  exact List.filterMap_congr fun s hs => inner_of_isName (h s hs)

lemma Ordinary.components_eq (h : q.Ordinary) : q.components = q.names.map .name := by
  rw [components, if_neg (by simp [h.not_isAbsolute])]
  split
  · rename_i hnil
    exact absurd hnil q.segments_ne_nil
  · rename_i first rest hseg
    have hfirst : first ≠ dot := (h first (by simp [hseg])).2.1
    rw [if_neg hfirst, h.filterMap_inner]

/-- Joining puts the names of a path made of names after the components of any other. -/
theorem components_join (hq : q.Ordinary) :
    (p.join q).components = p.components ++ q.names.map .name := by
  have habs := isAbsolute_join (p := p) hq.not_isAbsolute
  cases hempty : p.isEmpty with
  | true =>
    obtain rfl := isEmpty_iff.1 hempty
    rw [empty_join, hq.components_eq]
    rfl
  | false =>
    -- a slash at the end of `p` is one more segment there, and no component
    obtain ⟨front, hfront, hp, hjoin⟩ : ∃ front : List Bytes, front ≠ [] ∧
        (p.segments = front ∨ p.segments = front ++ [[]]) ∧
        (p.join q).segments = front ++ q.segments := by
      rw [join, if_neg (by simp [hq.not_isAbsolute]), hempty, Bool.false_or]
      split
      · rename_i hend
        obtain ⟨s, hs⟩ := endsInSlash_iff.1 hend
        refine ⟨Bytes.splitOn slash s, Bytes.splitOn_ne_nil slash s, .inr ?_, ?_⟩
        · rw [segments, hs, Bytes.splitOn_append_sep]
          rfl
        · rw [segments, hs, List.append_assoc]
          exact Bytes.splitOn_append_sep slash s q.bytes
      · exact ⟨p.segments, p.segments_ne_nil, .inl rfl,
          Bytes.splitOn_append_sep slash p.bytes q.bytes⟩
    obtain ⟨first, rest, rfl⟩ := List.exists_cons_of_ne_nil hfront
    obtain ⟨rest', hp, hrest⟩ : ∃ rest', p.segments = first :: rest' ∧
        rest'.filterMap inner = rest.filterMap inner := by
      rcases hp with hp | hp
      · exact ⟨rest, hp, rfl⟩
      · exact ⟨rest ++ [[]], by rw [hp, List.cons_append], by simp [inner]⟩
    have hrest : (rest ++ q.segments).filterMap inner =
        rest'.filterMap inner ++ q.names.map .name := by
      rw [List.filterMap_append, hrest, hq.filterMap_inner]
    have hall : (first :: (rest ++ q.segments)).filterMap inner =
        (first :: rest').filterMap inner ++ q.names.map .name := by
      rw [List.filterMap_cons, List.filterMap_cons, hrest]
      cases inner first <;> rfl
    simp only [components, habs, hjoin, hp, List.cons_append, hall, hrest]
    split
    · rfl
    · split <;> rfl

lemma isName_of_fileName? {n : Bytes} (h : p.fileName? = some n) : IsName n ∧ slash ∉ n := by
  unfold fileName? at h
  split at h
  · rename_i m hlast
    obtain rfl := Option.some.inj h
    have hmem : Component.name m ∈ p.components := List.mem_of_getLast? hlast
    obtain ⟨s, hs, hm⟩ : ∃ s ∈ p.segments, inner s = some (.name m) := by
      unfold components at hmem
      split at hmem
      · simpa using hmem
      · split at hmem
        · cases hmem
        · rename_i first rest hseg
          rw [hseg]
          split at hmem
          · have hrest : ∃ s ∈ rest, inner s = some (.name m) := by simpa using hmem
            obtain ⟨s, hs, hm⟩ := hrest
            exact ⟨s, List.mem_cons_of_mem _ hs, hm⟩
          · rw [hseg] at hmem
            simpa using hmem
    have hsm : s ≠ [] ∧ s ≠ dot ∧ s ≠ dotDot ∧ s = m := by
      unfold inner at hm
      grind
    obtain ⟨hne, hdot, hdots, rfl⟩ := hsm
    exact ⟨⟨hne, hdot, hdots⟩, Bytes.not_mem_of_mem_splitOn hs⟩
  · cases h

lemma Ordinary.fileName?_eq (h : q.Ordinary) : q.fileName? = q.names.getLast? := by
  rw [fileName?, h.components_eq, List.getLast?_map]
  cases q.names.getLast? <;> rfl

lemma ordinary_mk {n : Bytes} (hn : IsName n) (hs : slash ∉ n) : (⟨n⟩ : Path).Ordinary := by
  intro s hmem
  rw [segments_mk_of_not_mem hs, List.mem_singleton] at hmem
  exact hmem ▸ hn

lemma names_mk {n : Bytes} (hn : IsName n) (hs : slash ∉ n) : (⟨n⟩ : Path).names = [n] := by
  rw [(ordinary_mk hn hs).names_eq, segments_mk_of_not_mem hs]

lemma ancestors_mk {n : Bytes} (hn : IsName n) (hs : slash ∉ n) :
    (⟨n⟩ : Path).ancestors = [⟨[]⟩] := by
  have hcounts : counts n [] = true := by simp [counts, hn.1]
  have habs : (⟨n⟩ : Path).isAbsolute = false := (ordinary_mk hn hs).not_isAbsolute
  rw [ancestors, segments_mk_of_not_mem hs, List.reverse_singleton, ancestorSegments,
    if_pos hcounts, habs]
  rfl

lemma endsIn_join_mk {n : Bytes} (hn : IsName n) (hs : slash ∉ n) (p : Path) :
    (p.join ⟨n⟩).EndsIn p.names n where
  names := by rw [names_join (ordinary_mk hn hs).not_isAbsolute, names_mk hn hs]
  isName := hn
  noSlash := by
    have hord := ordinary_mk hn hs
    rw [endsInSlash_join hord.bytes_ne_nil, hord.not_endsInSlash]

/-- The path with the given segments, innermost first. -/
def ofInward (l : List Bytes) : Path := ⟨Bytes.join slash l.reverse⟩

lemma segments_ofInward {l : List Bytes} (hne : l ≠ []) (h : ∀ s ∈ l, slash ∉ s) :
    (ofInward l).segments = l.reverse :=
  Bytes.splitOn_join (by simpa using hne) fun s hs => h s (List.mem_reverse.1 hs)

lemma isAbsolute_iff : p.isAbsolute = true ↔ ∃ l, l ≠ [] ∧ p.segments = [] :: l := by
  unfold isAbsolute segments
  cases p.bytes with
  | nil => simp [Bytes.splitOn]
  | cons b s =>
    have hne := Bytes.splitOn_ne_nil slash s
    by_cases hb : b = slash
    · simp [Bytes.splitOn, hb, hne]
    · obtain ⟨part, parts, hs⟩ := List.exists_cons_of_ne_nil hne
      simp [Bytes.splitOn, hb, hs]

/-- A path next outside another: it has the steps of the other but for the last, dots apart. -/
structure Outside (p outer : Path) : Prop where
  names : ∃ dots s, p.names = outer.names ++ dots ++ [s] ∧ (∀ d ∈ dots, d = dot) ∧
    (s = dot → outer.isEmpty = true)
  isAbsolute : outer.isEmpty = false → outer.isAbsolute = p.isAbsolute

lemma names_ofInward {s : Bytes} {l : List Bytes} (h : ∀ x ∈ s :: l, slash ∉ x) (hs : s ≠ []) :
    (ofInward (s :: l)).names = l.reverse.filter (· ≠ []) ++ [s] := by
  rw [names, segments_ofInward (by simp) h, List.reverse_cons, List.filter_append]
  simp [hs]

lemma isAbsolute_ofInward {s : Bytes} {l : List Bytes} (h : ∀ x ∈ s :: l, slash ∉ x) :
    (ofInward (s :: l)).isAbsolute = true ↔ l.getLast? = some [] := by
  rw [isAbsolute_iff, segments_ofInward (by simp) h]
  rcases l.eq_nil_or_concat with rfl | ⟨l, x, rfl⟩ <;> simp

lemma slash_not_mem_skip {s x : Bytes} {l : List Bytes} (h : ∀ y ∈ s :: x :: l, slash ∉ y) :
    ∀ y ∈ s :: l, slash ∉ y := fun y hy =>
  h y ((List.sublist_cons_self x l).cons_cons s |>.subset hy)

lemma isAbsolute_ofInward_skip {s x : Bytes} {l : List Bytes} (h : ∀ y ∈ s :: x :: l, slash ∉ y)
    (hl : l ≠ []) : (ofInward (s :: x :: l)).isAbsolute = (ofInward (s :: l)).isAbsolute := by
  rw [Bool.eq_iff_iff, isAbsolute_ofInward h, isAbsolute_ofInward (slash_not_mem_skip h),
    List.getLast?_cons_of_ne_nil hl]

lemma Outside.skip {s x : Bytes} {l : List Bytes} {outer : Path}
    (ho : (ofInward (s :: l)).Outside outer) (h : ∀ y ∈ s :: x :: l, slash ∉ y) (hl : l ≠ [])
    (hs : s ≠ [] ∧ s ≠ dot) (hx : x ≠ [] → x = dot) : (ofInward (s :: x :: l)).Outside outer := by
  obtain ⟨⟨dots, s', hdots, hall, -⟩, hout⟩ := ho
  rw [names_ofInward (slash_not_mem_skip h) hs.1] at hdots
  obtain ⟨hdots, -⟩ := List.append_inj' hdots rfl
  refine ⟨⟨dots ++ [x].filter (· ≠ []), s, ?_, fun d hd => ?_, fun hd => absurd hd hs.2⟩,
    fun hempty => ?_⟩
  · rw [names_ofInward h hs.1, List.reverse_cons, List.filter_append, hdots,
      List.append_assoc outer.names]
  · rcases List.mem_append.1 hd with hd | hd
    · exact hall d hd
    · obtain ⟨rfl, hne⟩ : d = x ∧ d ≠ [] := by simpa using hd
      exact hx hne
  · rw [hout hempty, isAbsolute_ofInward_skip h hl]

lemma chain_ofInward {l : List Bytes} {s : Bytes} (h : ∀ x ∈ s :: l, slash ∉ x)
    (hs : counts s l = true) :
    List.IsChain Outside (ofInward (s :: l) :: ((ancestorSegments l).map ofInward ++
      [if (ofInward (s :: l)).isAbsolute then ⟨[slash]⟩ else ⟨[]⟩])) := by
  induction l generalizing s with
  | nil =>
    have hne : s ≠ [] := by simpa [counts] using hs
    have habs : (ofInward [s]).isAbsolute = false := by simpa using isAbsolute_ofInward h
    rw [ancestorSegments, habs]
    refine .cons_cons ⟨⟨[], s, names_ofInward h hne, by simp, fun _ => rfl⟩, fun hempty => ?_⟩
      (.singleton _)
    cases hempty
  | cons x l ih =>
    have hx : ∀ y ∈ x :: l, slash ∉ y := fun y hy => h y (List.mem_cons_of_mem s hy)
    have hne : s ≠ [] ∧ s ≠ dot := by simpa [counts] using hs
    have hdot {outer : Path} (hd : s = dot) : outer.isEmpty = true := absurd hd hne.2
    have hnames := names_ofInward h hne.1
    have habs := isAbsolute_ofInward h
    by_cases hcounts : counts x l = true
    · have hsame : (ofInward (s :: x :: l)).isAbsolute = (ofInward (x :: l)).isAbsolute := by
        rw [Bool.eq_iff_iff, habs, isAbsolute_ofInward hx]
        cases l with
        | nil => simpa [counts] using hcounts
        | cons y l => simp
      have hout : (ofInward (x :: l)).names = (x :: l).reverse.filter (· ≠ []) := by
        rw [names, segments_ofInward (by simp) hx]
      rw [ancestorSegments, if_pos hcounts, hsame]
      refine .cons_cons ⟨⟨[], s, ?_, by simp, hdot⟩, fun _ => hsame.symm⟩ (ih hx hcounts)
      rw [hnames, hout, List.append_nil]
    · rw [ancestorSegments, if_neg hcounts]
      cases l with
      | nil =>
        obtain rfl : x = [] := by simpa [counts] using hcounts
        rw [if_pos (habs.2 rfl)]
        exact .cons_cons ⟨⟨[], s, hnames, by simp, hdot⟩, fun _ => (habs.2 rfl).symm⟩ (.singleton _)
      | cons y l =>
        -- `x` is no component, so it is one more dot, if that
        have hchain := ih (slash_not_mem_skip h) (by simpa [counts] using hne)
        rw [List.isChain_cons] at hchain ⊢
        rw [isAbsolute_ofInward_skip h (by simp)]
        refine ⟨fun outer houter => ?_, hchain.2⟩
        exact (hchain.1 outer houter).skip h (by simp) hne (by simpa [counts] using hcounts)

lemma EndsIn.segments {outer : List Bytes} {s : Bytes} (h : p.EndsIn outer s) :
    ∃ l, p.segments = l ++ [s] := by
  have hnames := h.names
  rcases p.bytes.eq_nil_or_concat with hb | ⟨q, b, hb⟩
  · have hnil : p.names = [] := by simp [Path.names, Path.segments, hb, Bytes.splitOn]
    simp [hnil] at hnames
  · have hslash : b ≠ slash := by
      rintro rfl
      have hend : p.endsInSlash = true := endsInSlash_iff.2 ⟨q, by simpa using hb⟩
      simp [h.noSlash] at hend
    obtain ⟨l, part, hl⟩ := Bytes.splitOn_concat hslash q
    have hseg : p.segments = l ++ [part ++ [b]] := by
      rw [Path.segments, hb, List.concat_eq_append, hl]
    have hlast : [part ++ [b]].filter (· ≠ []) = [part ++ [b]] := by simp
    rw [Path.names, hseg, List.filter_append, hlast] at hnames
    obtain ⟨-, hs⟩ := List.append_inj' hnames rfl
    exact ⟨l, by simpa [← hs] using hseg⟩

lemma mem_ancestors_cases {a : Path} (h : a ∈ p.ancestors) :
    a ∈ p.ancestors.dropLast ∨ a = ⟨[]⟩ ∨ a = ⟨[slash]⟩ := by
  rw [ancestors] at h ⊢
  split at h
  · cases h
  · rw [List.dropLast_concat]
    rw [List.mem_append, List.mem_singleton] at h
    refine h.imp_right fun h => ?_
    split at h
    · exact .inr h
    · exact .inl h

lemma suffix_of_mem_ancestorSegments {l inward : List Bytes} (h : inward ∈ ancestorSegments l) :
    inward <:+ l := by
  induction l with
  | nil => cases h
  | cons s outer ih =>
    rw [ancestorSegments] at h
    split at h
    · rcases List.mem_cons.1 h with rfl | h
      · exact List.suffix_rfl
      · exact (ih h).trans (List.suffix_cons s outer)
    · exact (ih h).trans (List.suffix_cons s outer)

lemma ancestorSegments_replicate (k : ℕ) (l : List Bytes) :
    ancestorSegments (List.replicate k [] ++ l) = ancestorSegments l := by
  induction k with
  | zero => rfl
  | succ k ih =>
    rw [List.replicate_succ, List.cons_append, ancestorSegments, if_neg (by simp [counts]), ih]

section named
variable {outer : List Bytes} {s : Bytes} (h : p.names = outer ++ [s]) (hs : IsName s)
include h

lemma segments_of_names : ∃ l k, p.segments = l ++ s :: List.replicate k [] := by
  obtain ⟨l, rest, hsegments, -, hlast⟩ := List.filter_eq_append_iff.1 h
  obtain ⟨before, after, rfl, -, -, hafter⟩ := List.filter_eq_cons_iff.1 hlast
  refine ⟨l ++ before, after.length, ?_⟩
  rw [hsegments, List.append_assoc, ← List.eq_replicate_iff.2 ⟨rfl, fun x hx => ?_⟩]
  simpa using List.filter_eq_nil_iff.1 hafter x hx

include hs

lemma ancestors_of_names :
    ∃ l, (∀ x ∈ s :: l, slash ∉ x) ∧ counts s l = true ∧ (ofInward (s :: l)).names = p.names ∧
      (ofInward (s :: l)).isAbsolute = p.isAbsolute ∧ (ofInward (s :: l)).bytes <+: p.bytes ∧
      p.ancestors = (ancestorSegments l).map ofInward ++
        [if p.isAbsolute then ⟨[slash]⟩ else ⟨[]⟩] := by
  obtain ⟨l, k, hl⟩ := segments_of_names h
  have hcounts : counts s l.reverse = true := by simp [counts, hs.1, hs.2.1]
  have hslash : ∀ x ∈ s :: l.reverse, slash ∉ x := fun x hx => by
    apply Bytes.not_mem_of_mem_splitOn (s := p.bytes)
    rw [← Path.segments, hl]
    rcases List.mem_cons.1 hx with rfl | hx
    · simp
    · simp [List.mem_reverse.1 hx]
  refine ⟨l.reverse, hslash, hcounts, ?_, ?_, ?_, ?_⟩
  · rw [names_ofInward hslash hs.1, List.reverse_reverse, Path.names, hl]
    simp [hs.1]
  · rw [Bool.eq_iff_iff, isAbsolute_ofInward hslash, isAbsolute_iff, hl]
    cases l with
    | nil => simp [hs.1]
    | cons x l => simp
  · have hjoin := Bytes.join_prefix slash (l ++ [s]) (List.replicate k [])
    have hbytes : Bytes.join slash p.segments = p.bytes := Bytes.join_splitOn slash p.bytes
    rw [List.append_assoc, List.singleton_append, ← hl, hbytes] at hjoin
    rwa [ofInward, List.reverse_cons, List.reverse_reverse]
  · simp only [ancestors, hl, List.reverse_append, List.reverse_cons, List.reverse_replicate,
      List.append_assoc, ancestorSegments_replicate, List.singleton_append, ancestorSegments,
      hcounts, if_true]
    rfl

/-- Each of the paths outside a path whose last step is a name is next outside the one before. -/
theorem chain_ancestors : List.IsChain Outside (p :: p.ancestors) := by
  obtain ⟨l, hslash, hcounts, hnames, habs, -, hancestors⟩ := ancestors_of_names h hs
  have hchain := chain_ofInward hslash hcounts
  rw [habs] at hchain
  rw [hancestors]
  -- what is next outside a path depends on its names only, and on where it starts
  rw [List.isChain_cons] at hchain ⊢
  refine ⟨fun o ho => ?_, hchain.2⟩
  obtain ⟨hinner, hout⟩ := hchain.1 o ho
  exact ⟨hnames ▸ hinner, fun hempty => (hout hempty).trans habs⟩

theorem prefix_of_mem_ancestors {a : Path} (ha : a ∈ p.ancestors) : a.bytes <+: p.bytes := by
  obtain ⟨l, -, -, -, -, hbytes, hancestors⟩ := ancestors_of_names h hs
  rw [hancestors, List.mem_append, List.mem_map, List.mem_singleton] at ha
  rcases ha with ⟨inward, hin, rfl⟩ | rfl
  · obtain ⟨more, rfl⟩ := suffix_of_mem_ancestorSegments hin
    have hjoin := Bytes.join_prefix slash inward.reverse (s :: more).reverse
    refine List.IsPrefix.trans ?_ hbytes
    rw [ofInward, ofInward]
    simpa using hjoin
  · split
    · rename_i habs
      obtain ⟨rest, hrest⟩ := List.head?_eq_some_iff.1 (beq_iff_eq.1 habs)
      rw [hrest]
      exact (List.prefix_cons_inj slash).2 List.nil_prefix
    · exact List.nil_prefix

lemma getLast?_ancestors : ∃ a, p.ancestors.getLast? = some a ∧ a.names = [] := by
  obtain ⟨l, -, -, -, -, -, hancestors⟩ := ancestors_of_names h hs
  refine ⟨_, by rw [hancestors, List.getLast?_concat], ?_⟩
  split <;> rfl

end named

lemma EndsIn.chain_ancestors {outer : List Bytes} {s : Bytes} (h : p.EndsIn outer s) :
    List.IsChain Outside (p :: p.ancestors) := Path.chain_ancestors h.names h.isName

/-- The path next outside an entry of a directory is that of the directory. -/
theorem EndsIn.parent?_join {outer : List Bytes} {s n : Bytes} (h : p.EndsIn outer s)
    (hn : IsName n) (hslash : slash ∉ n) : (p.join ⟨n⟩).parent? = some p := by
  obtain ⟨l, hl⟩ := h.segments
  have hord := ordinary_mk hn hslash
  have hjoin : (p.join ⟨n⟩).segments = p.segments ++ [n] := by
    rw [join_of_not_isAbsolute hord.not_isAbsolute h.not_isEmpty h.noSlash, Path.segments,
      Bytes.splitOn_append_sep, Bytes.splitOn_of_not_mem hslash]
    rfl
  have hcounts : counts n (p.segments.reverse) = true := by simp [counts, hn.1, hn.2.1]
  have hcounts' : counts s l.reverse = true := by simp [counts, h.isName.1, h.isName.2.1]
  have hbytes : Bytes.join slash p.segments = p.bytes := Bytes.join_splitOn slash p.bytes
  rw [parent?, ancestors, hjoin, List.reverse_concat, ancestorSegments, if_pos hcounts]
  rw [hl] at hbytes
  simp only [hl, List.reverse_concat, ancestorSegments, hcounts', if_true, List.map_cons,
    List.cons_append, List.head?_cons, List.reverse_cons, List.reverse_reverse, hbytes]

lemma Outside.not_isEmpty (h : p.Outside q) : p.isEmpty = false := by
  obtain ⟨dots, s, hnames, -⟩ := h.names
  exact not_isEmpty_of_names (by simp [hnames])

/-- Paths each next outside the one before start alike, and go less far. -/
theorem prefix_of_chain {l : List Path} (h : List.IsChain Outside (p :: l)) :
    ∀ q ∈ l, q.names <+: p.names ∧ (q.isEmpty = false → q.isAbsolute = p.isAbsolute) := by
  induction l generalizing p with
  | nil => simp
  | cons o l ih =>
    obtain ⟨ho, hl⟩ := List.isChain_cons_cons.1 h
    obtain ⟨dots, s, hnames, -⟩ := ho.names
    have hfront : o.names <+: p.names := by
      rw [hnames, List.append_assoc]
      exact List.prefix_append _ _
    intro q hq
    rcases List.mem_cons.1 hq with rfl | hq
    · exact ⟨hfront, ho.isAbsolute⟩
    · obtain ⟨hqo, habs⟩ := ih hl q hq
      have hne : o.isEmpty = false := by
        cases l with
        | nil => cases hq
        | cons o' l => exact (List.isChain_cons_cons.1 hl).1.not_isEmpty
      exact ⟨hqo.trans hfront, fun hq => (habs hq).trans (ho.isAbsolute hne)⟩

end Path
end FirmwareTasks
