/- The settings file that a new project begins with. -/
namespace Authorship.Config

def templateLines : List String := [
  "# codeorigin configuration",
  "",
  "[analysis]",
  "# Code lines above which the copy-paste scan uses the linear estimate",
  "max_copy_paste_lines = 5000",
  "",
  "# Analyzers to skip: structural, redundancy, naming, complexity, ai_pattern, human_style",
  "disabled_analyzers = []",
  "",
  "# Run the analyzers of one file concurrently",
  "parallel = true",
  "",
  "[detection]",
  "# auto (baseline-aware when statistics are available), heuristic, baseline",
  "strategy = \"auto\"",
  "",
  "# Reasoning lines per result (5-8)",
  "max_reasons = 6",
  "",
  "[detection.heuristic]",
  "ai = 0.60",
  "human = 0.40",
  "",
  "[detection.baseline]",
  "ai = 0.65",
  "human = 0.35",
  "",
  "[detection.baseline.blend]",
  "baseline = 0.6",
  "perfection = 0.2",
  "simplicity = 0.1",
  "chaos = 0.1",
  "",
  "[baseline]",
  "# stats_path = \"feature_stats.json\"",
  "top_k = 15",
  "",
  "# Used when the statistics file is missing: empty or reference",
  "fallback = \"empty\"",
  "",
  "[human_style]",
  "spacing = 0.30",
  "indentation = 0.30",
  "naming = 0.25",
  "formatting = 0.15"]

def template : String := String.join (templateLines.map (· ++ "\n"))

end Authorship.Config
