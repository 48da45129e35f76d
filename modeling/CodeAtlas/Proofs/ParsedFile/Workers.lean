import CodeAtlas.Proofs.Distinct
import CodeAtlas.Proofs.ParsedFile.Shape
/-!
Files read by several workers, each with parsers of its own. Main statement: `run_independent`, what is
read does not depend on who reads which file and when, and a worker has exactly the parsers that its
files asked for. A parser that is kept is the one that the registry would give, so keeping it changes
nothing.
-/

namespace CodeAtlas

variable {registry : Registry} {config : Config} {file : SourceFile} {files : List SourceFile}
  {set other : ParserSet} {l : Language} {ls : List Language}

def SourceFile.language? (config : Config) (file : SourceFile) : Option Language :=
  if isOversized config file.content then none else Language.detect? file.path file.hint

def Registry.asked (r : Registry) (config : Config) (files : List SourceFile) : List Language :=
  (files.filterMap (SourceFile.language? config)).filter r.isAvailable

namespace ParserSet

def languages (s : ParserSet) : List Language :=
  s.loaded.map (·.1)

/-- The parsers are those of a registry for some of its languages, each made once. -/
structure Serves (registry : Registry) (ls : List Language) (s : ParserSet) : Prop where
  registry_eq : s.registry = registry
  nodup : s.languages.Nodup
  mem_iff : ∀ l, l ∈ s.languages ↔ l ∈ ls
  grammar_eq : ∀ l g, (l, g) ∈ s.loaded → registry.grammar? l = some g

theorem fresh_serves (registry : Registry) : Serves registry [] ⟨registry, []⟩ :=
  ⟨rfl, .nil, fun _ => Iff.rfl, by simp⟩

theorem notMem_languages_of_lookup (h : set.loaded.lookup l = none) : l ∉ set.languages := by
  intro hmem
  obtain ⟨entry, hentry, rfl⟩ := List.mem_map.mp hmem
  have hne := List.lookup_eq_none_iff.mp h entry hentry
  simp at hne

theorem Serves.parser_fst (h : set.Serves registry ls) (l : Language) :
    (set.parser l).1 = (ParserSet.parser ⟨registry, []⟩ l).1 := by
  unfold parser
  cases hlookup : set.loaded.lookup l with
  | some g =>
    have hgrammar := h.grammar_eq l g (Distinct.mem_of_lookup hlookup)
    simp [hgrammar]
  | none =>
    simp only [h.registry_eq, List.lookup_nil]
    cases registry.grammar? l <;> rfl

theorem parser_snd_loaded (set : ParserSet) (l : Language) :
    (set.parser l).2.registry = set.registry ∧
      ((set.parser l).2 = set ∧ (l ∈ set.languages ∨ set.registry.isAvailable l = false) ∨
        ∃ g, set.registry.grammar? l = some g ∧ l ∉ set.languages ∧
          (set.parser l).2.loaded = (l, g) :: set.loaded) := by
  unfold parser
  cases hlookup : set.loaded.lookup l with
  | some g =>
    have hmem : l ∈ set.languages := List.mem_map_of_mem (Distinct.mem_of_lookup hlookup)
    exact ⟨rfl, .inl ⟨rfl, .inl hmem⟩⟩
  | none =>
    cases hgrammar : set.registry.grammar? l with
    | none => exact ⟨rfl, .inl ⟨rfl, .inr (by simp [Registry.isAvailable, hgrammar])⟩⟩
    | some g => exact ⟨rfl, .inr ⟨g, rfl, notMem_languages_of_lookup hlookup, rfl⟩⟩

theorem Serves.parser_snd (h : set.Serves registry ls) (l : Language) :
    (set.parser l).2.Serves registry ([l].filter registry.isAvailable ++ ls) := by
  obtain ⟨hregistry, ⟨hsame, hkept⟩ | ⟨g, hgrammar, hnew, hloaded⟩⟩ := parser_snd_loaded set l
  · rw [hsame]
    refine ⟨h.registry_eq, h.nodup, ?_, h.grammar_eq⟩
    intro m
    rw [h.mem_iff, List.mem_append, List.mem_filter, List.mem_singleton]
    rw [h.mem_iff, h.registry_eq] at hkept
    constructor
    · exact .inr
    · rintro (⟨rfl, havailable⟩ | hm)
      · rcases hkept with hkept | hkept
        · exact hkept
        · rw [hkept] at havailable
          contradiction
      · exact hm
  · rw [h.registry_eq] at hgrammar
    have havailable : registry.isAvailable l = true := by
      rw [Registry.isAvailable, hgrammar]
      rfl
    have hlanguages : (set.parser l).2.languages = l :: set.languages := by
      rw [languages, hloaded]
      rfl
    refine ⟨hregistry.trans h.registry_eq, ?_, ?_, ?_⟩
    · rw [hlanguages]
      exact List.nodup_cons.mpr ⟨hnew, h.nodup⟩
    · intro m
      rw [hlanguages, List.mem_cons, h.mem_iff]
      simp [havailable]
    · intro m g' hmem
      rw [hloaded] at hmem
      rcases List.mem_cons.mp hmem with heq | hmem
      · obtain ⟨rfl, rfl⟩ := Prod.mk.inj heq
        exact hgrammar
      · exact h.grammar_eq m g' hmem

theorem loaded_suffix_parser_snd (set : ParserSet) (l : Language) :
    set.loaded <:+ (set.parser l).2.loaded := by
  obtain ⟨-, ⟨hsame, -⟩ | ⟨g, -, -, hloaded⟩⟩ := parser_snd_loaded set l
  · rw [hsame]
  · rw [hloaded]
    exact List.suffix_cons _ _

theorem extract_snd (set : ParserSet) (config : Config) (l : Language) (src : Source)
    (content : String) : (set.extract config l src content).2 = (set.parser l).2 := by
  unfold extract
  split
  · next hparser => rw [hparser]
  · next hparser =>
    rw [hparser]
    split <;> rfl

theorem parse_snd (set : ParserSet) (config : Config) (file : SourceFile) :
    (set.parse config file).2 =
      match file.language? config with
      | none => set
      | some l => (set.parser l).2 := by
  unfold parse SourceFile.language?
  by_cases hsize : isOversized config file.content = true
  · simp only [hsize, ↓reduceIte]
  · simp only [hsize, Bool.false_eq_true, ↓reduceIte]
    cases Language.detect? file.path file.hint with
    | none => rfl
    | some l =>
      have hextract := extract_snd set config l (Source.ofString file.path (some l) file.content)
        file.content
      dsimp only
      split <;> next heq => rw [← hextract, heq]

theorem parse_fst_congr (h : ∀ l, (set.parser l).1 = (other.parser l).1) :
    (set.parse config file).1 = (other.parse config file).1 := by
  by_cases hsize : isOversized config file.content = true
  · unfold parse
    simp only [hsize, ↓reduceIte]
  · have hsize : isOversized config file.content = false := by simpa using hsize
    cases hlanguage : Language.detect? file.path file.hint with
    | none =>
      unfold parse
      simp only [hsize, hlanguage, Bool.false_eq_true, ↓reduceIte]
    | some l =>
      rw [parse_fst set config file hlanguage hsize, parse_fst other config file hlanguage hsize,
        extract_fst, extract_fst, h l]

theorem Serves.parse_fst_eq (h : set.Serves registry ls) :
    (set.parse config file).1 = (ParserSet.parse ⟨registry, []⟩ config file).1 :=
  parse_fst_congr h.parser_fst

theorem Serves.congr {ls' : List Language} (h : set.Serves registry ls)
    (hmem : ∀ l, l ∈ ls ↔ l ∈ ls') : set.Serves registry ls' :=
  ⟨h.registry_eq, h.nodup, fun l => (h.mem_iff l).trans (hmem l), h.grammar_eq⟩

theorem Serves.parse_snd (h : set.Serves registry (registry.asked config files))
    (file : SourceFile) :
    (set.parse config file).2.Serves registry (registry.asked config (files ++ [file])) := by
  rw [ParserSet.parse_snd]
  cases hlanguage : file.language? config with
  | none =>
    apply h.congr
    intro l
    simp [Registry.asked, hlanguage]
  | some l =>
    apply (h.parser_snd l).congr
    intro m
    simp only [Registry.asked, List.filterMap_append, List.filter_append, List.mem_append,
      List.filterMap_cons, hlanguage, List.filterMap_nil]
    exact or_comm

theorem loaded_suffix_parse (set : ParserSet) (config : Config) (file : SourceFile) :
    set.loaded <:+ (set.parse config file).2.loaded := by
  rw [ParserSet.parse_snd]
  cases file.language? config with
  | none => exact List.suffix_refl _
  | some l => exact loaded_suffix_parser_snd set l

theorem Serves.parseAll_eq (h : set.Serves registry ls) (config : Config)
    (files : List SourceFile) : set.parseAll config files =
      files.map fun file => (ParserSet.parse ⟨registry, []⟩ config file).1 := by
  induction files generalizing set ls with
  | nil => rfl
  | cons file files ih =>
    have hnext : ∃ ls', (set.parse config file).2.Serves registry ls' := by
      rw [ParserSet.parse_snd]
      cases file.language? config with
      | none => exact ⟨ls, h⟩
      | some l => exact ⟨_, h.parser_snd l⟩
    obtain ⟨ls', hnext⟩ := hnext
    rw [parseAll, List.map_cons, ← h.parse_fst_eq, ← ih hnext]

end ParserSet

structure Job where
  worker : Nat
  position : Nat
deriving DecidableEq

def Job.taken (files : List SourceFile) (worker : Nat) (jobs : List Job) : List SourceFile :=
  jobs.filterMap fun job => if job.worker = worker then files[job.position]? else none

structure ParsePhase where
  sets : Nat → ParserSet
  results : List (Option ParsedFile)

namespace ParsePhase

def start (registry : Registry) (files : List SourceFile) : ParsePhase where
  sets _ := ⟨registry, []⟩
  results := files.map fun _ => none

def step (config : Config) (files : List SourceFile) (p : ParsePhase) (job : Job) : ParsePhase :=
  match files[job.position]? with
  | none => p
  | some file =>
    let (parsed, set) := (p.sets job.worker).parse config file
    { sets := fun worker => if worker = job.worker then set else p.sets worker
      results := p.results.set job.position (some parsed) }

def run (registry : Registry) (config : Config) (files : List SourceFile) (jobs : List Job) :
    ParsePhase :=
  jobs.foldl (step config files) (start registry files)

variable {p : ParsePhase} {job : Job} {jobs : List Job} {worker : Nat}

theorem run_concat : run registry config files (jobs ++ [job]) =
    step config files (run registry config files jobs) job := by
  simp [run]

structure Reached (registry : Registry) (config : Config) (files : List SourceFile)
    (jobs : List Job) (p : ParsePhase) : Prop where
  serves : ∀ worker,
    (p.sets worker).Serves registry (registry.asked config (Job.taken files worker jobs))
  results_eq : ∀ i : Nat, p.results[i]? = files[i]?.map fun file =>
    if i ∈ jobs.map Job.position then some (ParserSet.parse ⟨registry, []⟩ config file).1 else none

theorem start_reached : Reached registry config files [] (start registry files) := by
  constructor
  · intro worker
    exact ParserSet.fresh_serves registry
  · intro i
    rw [start, List.getElem?_map]
    rfl

theorem step_reached (h : Reached registry config files jobs p) :
    Reached registry config files (jobs ++ [job]) (step config files p job) := by
  unfold step
  cases hfile : files[job.position]? with
  | none =>
    constructor
    · intro worker
      simpa [Job.taken, hfile] using h.serves worker
    · intro i
      by_cases hi : i = job.position
      · rw [h.results_eq, hi, hfile]
        rfl
      · simpa [hi] using h.results_eq i
  | some file =>
    constructor
    · intro worker
      by_cases hworker : worker = job.worker
      · have hnext := (h.serves job.worker).parse_snd file
        simpa [hworker, Job.taken, hfile] using hnext
      · have hother := h.serves worker
        simpa [hworker, Ne.symm hworker, Job.taken] using hother
    · intro i
      by_cases hi : job.position = i
      · have hplace := h.results_eq job.position
        rw [hfile, Option.map_some] at hplace
        obtain ⟨hlength, -⟩ := List.getElem?_eq_some_iff.mp hplace
        simp [← hi, hfile, hlength, (h.serves job.worker).parse_fst_eq]
      · simp [hi, Ne.symm hi, h.results_eq]

theorem run_reached (registry : Registry) (config : Config) (files : List SourceFile)
    (jobs : List Job) : Reached registry config files jobs (run registry config files jobs) := by
  induction jobs using List.reverseRecOn with
  | nil => exact start_reached
  | append_singleton jobs job ih =>
    rw [run_concat]
    exact step_reached ih

theorem loaded_suffix_step (config : Config) (files : List SourceFile) (p : ParsePhase) (job : Job)
    (worker : Nat) :
    (p.sets worker).loaded <:+ ((step config files p job).sets worker).loaded := by
  unfold step
  cases files[job.position]? with
  | none => exact List.suffix_refl _
  | some file =>
    by_cases hworker : worker = job.worker
    · simpa [hworker] using ParserSet.loaded_suffix_parse (p.sets job.worker) config file
    · simp [hworker]

theorem loaded_suffix_run (before next : List Job) (worker : Nat) :
    ((run registry config files before).sets worker).loaded <:+
      ((run registry config files (before ++ next)).sets worker).loaded := by
  induction next using List.reverseRecOn with
  | nil => rw [List.append_nil]
  | append_singleton next job ih =>
    rw [← List.append_assoc, run_concat]
    exact ih.trans (loaded_suffix_step config files _ job worker)

theorem Reached.results_eq_map (h : Reached registry config files jobs p)
    (hjobs : (jobs.map Job.position).Perm (List.range files.length)) :
    p.results = files.map fun file =>
      some (ParserSet.parse ⟨registry, []⟩ config file).1 := by
  apply List.ext_getElem?
  intro i
  rw [h.results_eq, List.getElem?_map]
  by_cases hi : i < files.length
  · have htaken : i ∈ jobs.map Job.position := hjobs.mem_iff.mpr (List.mem_range.mpr hi)
    simp only [htaken, ↓reduceIte]
  · have hnone : files[i]? = none := List.getElem?_eq_none (Nat.not_lt.mp hi)
    rw [hnone]
    rfl

end ParsePhase

namespace ParserSet

theorem Serves.languages_subset (h : set.Serves registry ls) :
    set.languages ⊆ registry.languages := by
  intro l hl
  obtain ⟨⟨l, g⟩, hmem, rfl⟩ := List.mem_map.mp hl
  have havailable : registry.isAvailable l = true := by
    rw [Registry.isAvailable, h.grammar_eq l g hmem]
    rfl
  exact List.mem_filter.mpr ⟨Language.mem_all l, havailable⟩

theorem Serves.size_eq (h : set.Serves registry ls) :
    set.size = (Distinct.ofList ls).length := by
  have hperm : set.languages.Perm (Distinct.ofList ls) := by
    apply (List.perm_ext_iff_of_nodup h.nodup (Distinct.nodup_ofList ls)).mpr
    intro l
    rw [h.mem_iff, Distinct.mem_ofList]
  rw [size, ← hperm.length_eq, languages, List.length_map]

end ParserSet

namespace ParsePhase

variable {jobs : List Job}

/-- However the files are shared out and whichever is read first, each is read as by a worker that reads
nothing else. Parsers are only ever added, and there is one for each registered language that the files
of the worker asked for. -/
theorem run_independent (registry : Registry) (config : Config)
    (hjobs : (jobs.map Job.position).Perm (List.range files.length)) :
    (run registry config files jobs).results =
        files.map (fun file => some (ParserSet.parse ⟨registry, []⟩ config file).1) ∧
      ParserSet.parseAll ⟨registry, []⟩ config files =
        files.map (fun file => (ParserSet.parse ⟨registry, []⟩ config file).1) ∧
      ∀ before next after, jobs = before ++ next ++ after → ∀ worker,
        ((run registry config files before).sets worker).loaded <:+
            ((run registry config files (before ++ next)).sets worker).loaded ∧
          ((run registry config files before).sets worker).languages ⊆ registry.languages ∧
          ((run registry config files before).sets worker).size =
            (Distinct.ofList (registry.asked config (Job.taken files worker before))).length := by
  refine ⟨(run_reached registry config files jobs).results_eq_map hjobs, ?_, ?_⟩
  · exact (ParserSet.fresh_serves registry).parseAll_eq config files
  · intro before next after _ worker
    have hserves := (run_reached registry config files before).serves worker
    exact ⟨loaded_suffix_run before next worker, hserves.languages_subset, hserves.size_eq⟩

theorem run_independent_fourFiles :
    let registry : Registry := ⟨fun l => if l = .python then some ⟨fun _ => none⟩ else none⟩
    let config : Config := { maxFileBytes := 10 }
    let files : List SourceFile :=
      [⟨"a.py", "x = 1\n", none⟩, ⟨"b.go", "var x\n", none⟩, ⟨"c.py", "x = 1\ny = 2\n", none⟩,
        ⟨"d.txt", "y = 2\n", some "python"⟩]
    let jobs : List Job := [⟨1, 2⟩, ⟨0, 3⟩, ⟨1, 1⟩, ⟨0, 0⟩]
    (jobs.map Job.position).Perm (List.range files.length) ∧
      (run registry config files jobs).results =
        files.map (fun file => some (ParserSet.parse ⟨registry, []⟩ config file).1) ∧
      ((run registry config files jobs).sets 0).size = 1 ∧
      ((run registry config files jobs).sets 1).size = 0 := by
  intro registry config files jobs
  have hjobs : (jobs.map Job.position).Perm (List.range files.length) := by decide
  obtain ⟨hresults, -, hsets⟩ := run_independent registry config hjobs
  refine ⟨hjobs, hresults, ?_, ?_⟩
  · rw [(hsets jobs [] [] (by simp) 0).2.2]
    decide +kernel
  · rw [(hsets jobs [] [] (by simp) 1).2.2]
    decide +kernel

end ParsePhase

end CodeAtlas
