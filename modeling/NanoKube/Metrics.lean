import NanoKube.Engine
import NanoKube.Exposition

/-!
# The metrics of a server

`metrics` writes two gauges by hand, in the text exposition format, with the name of the
model between the quotes of a label.  The name is `spec.model`, which may be any text that
is not empty, and nothing escapes it.

## Main definitions

* `metrics` — the body of a response.
* `gauges` — the samples that are meant.

## Main results

* `metrics_expose_iff` — for which models a scraper reads what is meant.
-/

namespace NanoKube

open Exposition

/-- The line of a gauge with its count. -/
def sampleLine (name modelName : Text) (count : ℕ) : Text :=
  name ++ "\x7bmodel_name=\"".toList ++ modelName ++ "\"\x7d ".toList ++ Nat.toDigits 10 count

/-- The lines of `metrics`. -/
def metricsLines (modelName : Text) (stats : ℕ × ℕ) : List Text := [
  "# HELP vllm:num_requests_running Number of requests currently running on GPU.".toList,
  "# TYPE vllm:num_requests_running gauge".toList,
  sampleLine "vllm:num_requests_running".toList modelName stats.1,
  "# HELP vllm:num_requests_waiting Number of requests waiting to be processed.".toList,
  "# TYPE vllm:num_requests_waiting gauge".toList,
  sampleLine "vllm:num_requests_waiting".toList modelName stats.2]

/-- `metrics`, for the name of the model and what `engine.stats` returned. -/
def metrics (modelName : Text) (stats : ℕ × ℕ) : Text :=
  (metricsLines modelName stats).flatMap fun line => line ++ ['\n']

/-- The sample of a gauge that is meant. -/
def gauge (name modelName : Text) (count : ℕ) : Sample :=
  ⟨name, [("model_name".toList, modelName)], .num count, none⟩

/-- The two samples that are meant. -/
def gauges (modelName : Text) (stats : ℕ × ℕ) : List Sample :=
  [gauge "vllm:num_requests_running".toList modelName stats.1,
    gauge "vllm:num_requests_waiting".toList modelName stats.2]

variable {modelName : Text} {stats : ℕ × ℕ}

theorem sampleLine_eq (name modelName : Text) (count : ℕ) : sampleLine name modelName count
    = name ++ '{' :: ("model_name".toList ++ '=' :: '"' ::
        (modelName ++ '"' :: '}' :: ' ' :: Nat.toDigits 10 count)) := by
  simp only [sampleLine, List.append_assoc]
  rfl

/-- A gauge for a model with nothing to escape in its name. -/
theorem parseLine_sampleLine (hplain : Plain modelName) {name : Text} (hname : isName name = true)
    (hchars : name.all isNameChar = true) (count : ℕ) (e : Scrape) :
    parseLine e (sampleLine name modelName count)
      = some { e with samples := e.samples ++ [gauge name modelName count] } := by
  rw [sampleLine_eq]
  exact parseLine_sample hname hchars rfl rfl hplain count e

theorem not_mem_helpRunning : '\n' ∉
    "# HELP vllm:num_requests_running Number of requests currently running on GPU.".toList := by
  decide

theorem not_mem_typeRunning : '\n' ∉ "# TYPE vllm:num_requests_running gauge".toList := by
  decide

/-- Where the name has no line feed, the lines of the text are those that were meant. -/
theorem linesFrom_metrics (hline : '\n' ∉ modelName) :
    linesFrom [] (metrics modelName stats) = some (metricsLines modelName stats) := by
  have hsample : ∀ (name : Text) (count : ℕ), '\n' ∉ name →
      '\n' ∉ sampleLine name modelName count := by
    intro name count hname
    simp [sampleLine_eq, hname, hline, not_mem_toDigits]
  apply linesFrom_lines
  simp only [metricsLines, List.forall_mem_cons]
  exact ⟨not_mem_helpRunning, not_mem_typeRunning, hsample _ _ (by decide), by decide, by decide,
    hsample _ _ (by decide), by simp⟩

/-- **With nothing to escape**, the two gauges are read. -/
theorem parse_metrics (hplain : Plain modelName) :
    (parse (metrics modelName stats)).map Scrape.samples = some (gauges modelName stats) := by
  obtain ⟨e, hfold, hsamples⟩ : ∃ e, (metricsLines modelName stats).foldlM parseLine {} = some e ∧
      e.samples = gauges modelName stats := by
    refine ⟨_, foldlM_cons_of_parseLine rfl <| foldlM_cons_of_parseLine rfl <|
      foldlM_cons_of_parseLine (parseLine_sampleLine hplain rfl rfl stats.1 _) <|
      foldlM_cons_of_parseLine rfl <| foldlM_cons_of_parseLine rfl <|
      foldlM_cons_of_parseLine (parseLine_sampleLine hplain rfl rfl stats.2 _) rfl,
      rfl⟩
  rw [parse, linesFrom_metrics hplain.2.2, Option.bind_some, hfold, Option.map_some, hsamples]

/-- The first sample as far as the name of the model, and what is left of the text. -/
theorem metrics_eq (modelName : Text) (stats : ℕ × ℕ) : ∃ more, metrics modelName stats
    = "# HELP vllm:num_requests_running Number of requests currently running on GPU.".toList
      ++ '\n' :: ("# TYPE vllm:num_requests_running gauge".toList
      ++ '\n' :: ("vllm:num_requests_running".toList ++ '{' :: ("model_name".toList ++ '=' :: '"' ::
        ((modelName ++ '"' :: '}' :: ' ' :: Nat.toDigits 10 stats.1) ++ '\n' :: more)))) := by
  refine ⟨((metricsLines modelName stats).drop 3).flatMap fun line => line ++ ['\n'], ?_⟩
  simp only [metrics, metricsLines, sampleLine_eq, List.flatMap_cons, List.append_assoc,
    List.cons_append, List.nil_append, List.drop_succ_cons, List.drop_zero]

/-- **Whatever the name**, the third line is the first sample up to some point, perhaps within
the name. -/
theorem exists_third_line (modelName : Text) (stats : ℕ × ℕ) : ∃ s rest,
    s <+: modelName ++ '"' :: '}' :: ' ' :: Nat.toDigits 10 stats.1 ∧
    linesFrom [] (metrics modelName stats) = (linesFrom [] rest).map fun lines =>
      "# HELP vllm:num_requests_running Number of requests currently running on GPU.".toList
        :: "# TYPE vllm:num_requests_running gauge".toList
        :: ("vllm:num_requests_running".toList ++ '{' :: ("model_name".toList ++ '=' :: '"' :: s))
        :: lines := by
  obtain ⟨more, htext⟩ := metrics_eq modelName stats
  have hmem : '\n' ∈ (modelName ++ '"' :: '}' :: ' ' :: Nat.toDigits 10 stats.1)
      ++ '\n' :: more := by simp
  obtain ⟨s, rest, hcut, hs⟩ := List.eq_append_cons_of_mem hmem
  have hbegins : s <+: modelName ++ '"' :: '}' :: ' ' :: Nat.toDigits 10 stats.1 :=
    prefix_of_not_mem hs ⟨'\n' :: rest, hcut.symm⟩
  have hline : '\n' ∉ "vllm:num_requests_running".toList ++ '{' ::
      ("model_name".toList ++ '=' :: '"' :: s) := by
    simp [hs]
  refine ⟨s, rest, hbegins, ?_⟩
  have hthird := linesFrom_line hline [] rest
  simp only [List.append_assoc, List.cons_append, List.nil_append] at hthird
  rw [htext, hcut, linesFrom_line not_mem_helpRunning, linesFrom_line not_mem_typeRunning, hthird]
  simp only [Option.map_map, Function.comp_def, List.nil_append]

/-- **Whatever the name**, if the two gauges are read, there was nothing to escape in it. -/
theorem plain_of_parse_metrics
    (h : (parse (metrics modelName stats)).map Scrape.samples = some (gauges modelName stats)) :
    Plain modelName := by
  obtain ⟨e, hparse, hsamples⟩ := Option.map_eq_some_iff.mp h
  obtain ⟨lines, hlines, hfold⟩ := Option.bind_eq_some_iff.mp hparse
  obtain ⟨s, rest, hbegins, hthird⟩ := exists_third_line modelName stats
  obtain ⟨others, -, rfl⟩ := Option.map_eq_some_iff.mp (hthird ▸ hlines)
  simp only [List.foldlM_cons] at hfold
  obtain ⟨help, hhelp, hfold⟩ := Option.bind_eq_some_iff.mp hfold
  obtain ⟨type, htype, hfold⟩ := Option.bind_eq_some_iff.mp hfold
  obtain ⟨first, hfirst, hfold⟩ := Option.bind_eq_some_iff.mp hfold
  have hnone : type.samples = [] := (samples_comment htype).trans (samples_comment hhelp)
  obtain ⟨value, after, sample, hvalue, hlabel, hsample⟩ :=
    exists_parseLabelValue rfl rfl rfl rfl hfirst
  -- the first of all samples is that of the third line
  have hhead : [sample] <+: gauges modelName stats := by
    rw [hnone, List.nil_append] at hsample
    exact hsamples ▸ hsample ▸ samples_foldlM hfold
  have hsame : sample = gauge "vllm:num_requests_running".toList modelName stats.1 :=
    (List.cons_prefix_cons.mp hhead).1
  have hname : value = modelName := by
    rw [hsame] at hlabel
    exact (Prod.mk.inj (Option.some.inj hlabel)).2.symm
  have htail : '"' ∉ '}' :: ' ' :: Nat.toDigits 10 stats.1 := by
    simp [not_mem_toDigits]
  exact plain_of_parseLabelValue htail hbegins (hname ▸ hvalue)

/-- **What a scraper reads.**  The text of the metrics gives the two gauges, with the counts and
the name of the model, exactly when nothing in the name has to be escaped. -/
theorem metrics_expose_iff (modelName : Text) (stats : ℕ × ℕ) :
    (parse (metrics modelName stats)).map Scrape.samples = some (gauges modelName stats) ↔
      '"' ∉ modelName ∧ '\\' ∉ modelName ∧ '\n' ∉ modelName :=
  ⟨plain_of_parse_metrics, parse_metrics⟩

/-- A quote in the name ends the label, and no scraper reads the text. -/
theorem quote_ends_the_label : parse (metrics "a\"b".toList (2, 3)) = none := by
  rw [parse, linesFrom_metrics (by decide)]
  rfl

end NanoKube
