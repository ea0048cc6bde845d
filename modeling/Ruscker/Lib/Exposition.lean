import Ruscker.Lib.Tokens

/-!
# An exposition of samples

A text with a line for each sample: its name, its labels with their values in quotes, and its
value; a line that starts with `#` is a comment.  Whatever the values of the labels contain, the
samples are read back from the text.
-/

namespace Exposition

structure Sample where
  name : List Char
  labels : List (List Char × List Char)
  value : List Char
  deriving DecidableEq

/-! ## Writing -/

/-- The value of a label: a backslash, a quote and a line feed are escaped. -/
def esc (v : List Char) : List Char :=
  v.flatMap fun c => match c with
    | '\\' => ['\\', '\\']
    | '"' => ['\\', '"']
    | '\n' => ['\\', 'n']
    | c => [c]

def labelText (l : List Char × List Char) : List Char := l.1 ++ '=' :: '"' :: (esc l.2 ++ ['"'])

def labelsText (labels : List (List Char × List Char)) : List Char :=
  if labels.isEmpty then [] else '{' :: ([','].intercalate (labels.map labelText) ++ ['}'])

def Sample.text (s : Sample) : List Char := s.name ++ labelsText s.labels ++ ' ' :: s.value

inductive Line where
  | comment (text : List Char)
  | sample (s : Sample)

def Line.text : Line → List Char
  | .comment text => '#' :: text
  | .sample s => s.text

def Line.sample? : Line → Option Sample
  | .comment _ => none
  | .sample s => some s

def write (ls : List Line) : List Char := ls.flatMap fun l => l.text ++ ['\n']

/-! ## Reading -/

/-- The text up to the closing quote, and what follows it. -/
def unquote : List Char → Option (List Char × List Char)
  | [] => none
  | '"' :: rest => some ([], rest)
  | '\\' :: c :: rest => (unquote rest).map fun p => ((if c = 'n' then '\n' else c) :: p.1, p.2)
  | c :: rest => (unquote rest).map fun p => (c :: p.1, p.2)

/-- The labels up to the closing brace; at most `n` of them are read. -/
def readLabels : Nat → List Char → Option (List (List Char × List Char) × List Char)
  | 0, _ => none
  | n + 1, s =>
    match s.dropWhile (· ≠ '=') with
    | '=' :: '"' :: rest =>
      match unquote rest with
      | some (v, ',' :: rest) =>
        (readLabels n rest).map fun p => ((s.takeWhile (· ≠ '='), v) :: p.1, p.2)
      | some (v, '}' :: rest) => some ([(s.takeWhile (· ≠ '='), v)], rest)
      | _ => none
    | _ => none

def endsName (c : Char) : Bool := c = '{' || c = ' '

def readSample (line : List Char) : Option Sample :=
  match line.dropWhile (!endsName ·) with
  | ' ' :: value => some ⟨line.takeWhile (!endsName ·), [], value⟩
  | '{' :: rest =>
    match readLabels rest.length rest with
    | some (labels, ' ' :: value) => some ⟨line.takeWhile (!endsName ·), labels, value⟩
    | _ => none
  | _ => none

def isSampleLine (line : List Char) : Bool := !line.isEmpty && line.head? ≠ some '#'

def read (text : List Char) : Option (List Sample) :=
  ((text.splitOnP (· = '\n')).filter isSampleLine).mapM readSample

/-! ## Reading back -/

structure Sample.WellFormed (s : Sample) : Prop where
  named : s.name ≠ [] ∧ s.name.head? ≠ some '#'
  name : ∀ c ∈ s.name, endsName c = false ∧ c ≠ '\n'
  keys : ∀ l ∈ s.labels, ∀ c ∈ l.1, c ≠ '=' ∧ c ≠ '\n'
  value : '\n' ∉ s.value

def Line.WellFormed : Line → Prop
  | .comment text => '\n' ∉ text
  | .sample s => s.WellFormed

section RoundTrip

variable {s : Sample} {v rest : List Char} {labels : List (List Char × List Char)}

theorem esc_cons (c : Char) (v : List Char) : esc (c :: v) = esc [c] ++ esc v := by
  simp [esc]

theorem esc_eq_self (h : ∀ c ∈ v, c ≠ '\\' ∧ c ≠ '"' ∧ c ≠ '\n') : esc v = v := by
  induction v with
  | nil => rfl
  | cons c v ih =>
    obtain ⟨hback, hquote, hline⟩ := h c List.mem_cons_self
    have hplain : esc [c] = [c] := by simp [esc]
    rw [esc_cons, hplain, ih fun a ha => h a (List.mem_cons_of_mem _ ha), List.singleton_append]

theorem unquote_esc (v rest : List Char) : unquote (esc v ++ '"' :: rest) = some (v, rest) := by
  induction v with
  | nil => rfl
  | cons c v ih =>
    rw [esc_cons, List.append_assoc]
    by_cases hback : c = '\\'
    · subst hback
      show (unquote (esc v ++ '"' :: rest)).map _ = _
      rw [ih]
      rfl
    · by_cases hquote : c = '"'
      · subst hquote
        show (unquote (esc v ++ '"' :: rest)).map _ = _
        rw [ih]
        rfl
      · by_cases hline : c = '\n'
        · subst hline
          show (unquote (esc v ++ '"' :: rest)).map _ = _
          rw [ih]
          rfl
        · have hplain : esc [c] = [c] := by simp [esc]
          rw [hplain, List.singleton_append, unquote, ih]
          · rfl
          · exact hquote
          · exact fun _ _ h => absurd h hback

theorem notMem_esc (v : List Char) : '\n' ∉ esc v := by
  induction v with
  | nil => exact List.not_mem_nil
  | cons c v ih =>
    rw [esc_cons, List.mem_append, not_or]
    refine ⟨?_, ih⟩
    by_cases hline : c = '\n'
    · subst hline
      decide
    · unfold esc
      rw [List.flatMap_singleton]
      split
      · decide
      · decide
      · decide
      · simpa using Ne.symm hline

theorem takeWhile_until {p : Char → Bool} {key tail : List Char} {c : Char}
    (hkey : ∀ a ∈ key, p a = true) (hc : p c = false) :
    (key ++ c :: tail).takeWhile p = key ∧ (key ++ c :: tail).dropWhile p = c :: tail := by
  constructor
  · rw [List.takeWhile_append_of_pos hkey, List.takeWhile_cons_of_neg (by simp [hc]),
      List.append_nil]
  · rw [List.dropWhile_append_of_pos hkey, List.dropWhile_cons_of_neg (by simp [hc])]

/-- A label in front of another one, and the last label. -/
theorem readLabels_succ {l : List Char × List Char} (hkey : ∀ c ∈ l.1, c ≠ '=') (n : Nat)
    (tail : List Char) :
    readLabels (n + 1) (labelText l ++ ',' :: tail) =
        (readLabels n tail).map (fun p => (l :: p.1, p.2)) ∧
      readLabels (n + 1) (labelText l ++ '}' :: tail) = some ([l], tail) := by
  have hsplit : ∀ tail, labelText l ++ tail = l.1 ++ '=' :: ('"' :: (esc l.2 ++ '"' :: tail)) :=
    fun tail => by simp [labelText]
  have hkey' : ∀ a ∈ l.1, decide (a ≠ '=') = true := fun a ha => decide_eq_true (hkey a ha)
  constructor
  · obtain ⟨htake, hdrop⟩ := @takeWhile_until (fun c => decide (c ≠ '=')) l.1
      ('"' :: (esc l.2 ++ '"' :: ',' :: tail)) '=' hkey' (by decide)
    rw [hsplit, readLabels, hdrop, htake]
    simp only [unquote_esc]
  · obtain ⟨htake, hdrop⟩ := @takeWhile_until (fun c => decide (c ≠ '=')) l.1
      ('"' :: (esc l.2 ++ '"' :: '}' :: tail)) '=' hkey' (by decide)
    rw [hsplit, readLabels, hdrop, htake]
    simp only [unquote_esc]

theorem readLabels_write (hne : labels ≠ []) (hkeys : ∀ l ∈ labels, ∀ c ∈ l.1, c ≠ '=')
    {n : Nat} (hn : labels.length ≤ n) (rest : List Char) :
    readLabels n ([','].intercalate (labels.map labelText) ++ '}' :: rest) =
      some (labels, rest) := by
  induction labels generalizing n with
  | nil => exact absurd rfl hne
  | cons l labels ih =>
    obtain ⟨n, rfl⟩ : ∃ m, n = m + 1 := ⟨n - 1, by rw [List.length_cons] at hn; omega⟩
    have hkey := hkeys l List.mem_cons_self
    cases labels with
    | nil =>
      rw [List.map_cons, List.map_nil, List.intercalate_singleton]
      exact (readLabels_succ hkey n rest).2
    | cons l' labels =>
      have hrest := ih (List.cons_ne_nil _ _) (fun m hm => hkeys m (List.mem_cons_of_mem _ hm))
        (by simpa using hn)
      rw [List.map_cons, List.map_cons, List.intercalate_cons_cons, List.append_assoc,
        List.append_assoc, List.singleton_append, (readLabels_succ hkey n _).1, ← List.map_cons,
        hrest]
      rfl

theorem length_le_intercalate (labels : List (List Char × List Char)) :
    labels.length ≤ ([','].intercalate (labels.map labelText)).length := by
  induction labels with
  | nil => exact Nat.zero_le _
  | cons l labels ih =>
    have hpos : 1 ≤ (labelText l).length := by
      rw [labelText, List.length_append, List.length_cons]
      omega
    cases labels with
    | nil => simpa using hpos
    | cons l' labels =>
      rw [List.map_cons, List.map_cons, List.intercalate_cons_cons, List.length_append,
        List.length_append, ← List.map_cons, List.length_cons]
      omega

theorem readSample_text (h : s.WellFormed) : readSample s.text = some s := by
  have hname : ∀ a ∈ s.name, (!endsName a) = true := fun a ha => by simp [(h.name a ha).1]
  unfold readSample Sample.text labelsText
  by_cases hlabels : s.labels.isEmpty = true
  · rw [if_pos hlabels, List.append_nil]
    obtain ⟨htake, hdrop⟩ := @takeWhile_until (fun c => !endsName c) s.name s.value ' ' hname
      (by decide)
    rw [htake, hdrop]
    show some (Sample.mk s.name [] s.value) = some s
    rw [← List.isEmpty_iff.mp hlabels]
  · rw [if_neg hlabels]
    have hrest : s.name ++ '{' :: ([','].intercalate (s.labels.map labelText) ++ ['}']) ++
        ' ' :: s.value = s.name ++ '{' :: ([','].intercalate (s.labels.map labelText) ++
          '}' :: ' ' :: s.value) := by simp
    obtain ⟨htake, hdrop⟩ := @takeWhile_until (fun c => !endsName c) s.name
      ([','].intercalate (s.labels.map labelText) ++ '}' :: ' ' :: s.value) '{' hname (by decide)
    have hlength : s.labels.length ≤
        ([','].intercalate (s.labels.map labelText) ++ '}' :: ' ' :: s.value).length := by
      have hle := length_le_intercalate s.labels
      rw [List.length_append]
      omega
    have hread := readLabels_write (by simpa using hlabels)
      (fun l hl c hc => (h.keys l hl c hc).1) hlength (' ' :: s.value)
    rw [hrest, htake, hdrop]
    simp only [hread]

theorem notMem_labelText {l : List Char × List Char} (h : ∀ c ∈ l.1, c ≠ '\n') :
    '\n' ∉ labelText l := by
  rw [labelText, List.mem_append, not_or]
  refine ⟨fun hmem => h _ hmem rfl, ?_⟩
  simp [notMem_esc]

/-- No value of a label starts a line of its own. -/
theorem notMem_text {l : Line} (h : l.WellFormed) : '\n' ∉ l.text := by
  cases l with
  | comment text =>
    rw [Line.text, List.mem_cons, not_or]
    exact ⟨by decide, h⟩
  | sample s =>
    have hlabels : '\n' ∉ [','].intercalate (s.labels.map labelText) := by
      intro hmem
      rcases Tokens.mem_intercalate hmem with hglue | ⟨t, ht, hmem⟩
      · exact absurd hglue (by decide)
      · obtain ⟨l, hl, rfl⟩ := List.mem_map.mp ht
        exact notMem_labelText (fun c hc => (h.keys l hl c hc).2) hmem
    rw [Line.text, Sample.text, labelsText, List.mem_append, List.mem_append, List.mem_cons]
    rintro ((hname | hmem) | heq | hvalue)
    · exact (h.name _ hname).2 rfl
    · split at hmem
      · cases hmem
      · simp [hlabels] at hmem
    · exact absurd heq (by decide)
    · exact h.value hvalue

theorem isSampleLine_text {l : Line} (h : l.WellFormed) :
    isSampleLine l.text = l.sample?.isSome := by
  cases l with
  | comment text => rfl
  | sample s =>
    obtain ⟨c, name, hname⟩ := List.exists_cons_of_ne_nil h.named.1
    have hhead := h.named.2
    rw [hname, List.head?_cons, ne_eq, Option.some.injEq] at hhead
    rw [Line.text, Sample.text, hname]
    simp [isSampleLine, Line.sample?, hhead]

theorem splitOnP_write {ls : List Line} (h : ∀ l ∈ ls, l.WellFormed) :
    (write ls).splitOnP (· = '\n') = ls.map Line.text ++ [[]] := by
  induction ls with
  | nil => rfl
  | cons l ls ih =>
    have hline : ∀ c ∈ l.text, decide (c = '\n') = false := fun c hc =>
      decide_eq_false fun heq => notMem_text (h l List.mem_cons_self) (heq ▸ hc)
    rw [write, List.flatMap_cons, List.append_assoc, List.singleton_append,
      List.splitOnP_append_cons_of_forall_mem hline _ (by decide), ← write,
      ih fun m hm => h m (List.mem_cons_of_mem _ hm)]
    rfl

theorem mapM_readSample {ls : List Line} (h : ∀ l ∈ ls, l.WellFormed) :
    ((ls.map Line.text).filter isSampleLine).mapM readSample =
      some (ls.filterMap Line.sample?) := by
  induction ls with
  | nil => rfl
  | cons l ls ih =>
    have hl := h l List.mem_cons_self
    rw [List.map_cons, List.filter_cons, isSampleLine_text hl, List.filterMap_cons]
    cases l with
    | comment text => exact ih fun m hm => h m (List.mem_cons_of_mem _ hm)
    | sample s =>
      rw [Line.sample?, Option.isSome_some, if_pos rfl, List.mapM_cons,
        ih fun m hm => h m (List.mem_cons_of_mem _ hm), Line.text, readSample_text hl]
      rfl

/-- The samples of a text that was written are read back, in their order. -/
theorem read_write {ls : List Line} (h : ∀ l ∈ ls, l.WellFormed) :
    read (write ls) = some (ls.filterMap Line.sample?) := by
  rw [read, splitOnP_write h, List.filter_append, List.filter_singleton]
  exact (congrArg (List.mapM readSample) (List.append_nil _)).trans (mapM_readSample h)

end RoundTrip

end Exposition
