/-
  KeyFigures/Library/Standard.lean
  ================================
  **The standard library and the standard settings.**

  Nineteen formulas in six categories: the sums that serve as building blocks,
  the ratios on top of them, and the key figures with their benchmarks.
  Balances keep the ledger's own sign, and a percentage scales by itself.
-/
import KeyFigures.Library.Basic
import KeyFigures.Library.Settings
import KeyFigures.Log.Journal

namespace KeyFigures.Library

def thresholds (excellent good poor : Value) : Value :=
  .object [("excellent", excellent), ("good", good), ("poor", poor)]

def standardCategories : Value :=
  .object [
    ("base", .object [("name", .text "Grunnlag"),
      ("description", .text "Summer brukt som byggesteiner i andre nøkkeltall")]),
    ("profitability", .object [("name", .text "Lønnsomhet"),
      ("description", .text "Måler hvor effektivt selskapet genererer overskudd")]),
    ("liquidity", .object [("name", .text "Likviditet"),
      ("description", .text "Måler selskapets evne til å dekke kortsiktige forpliktelser")]),
    ("solvency", .object [("name", .text "Soliditet"),
      ("description", .text "Måler selskapets finansielle stabilitet og gjeldsgrad")]),
    ("efficiency", .object [("name", .text "Effektivitet"),
      ("description", .text "Måler hvor effektivt selskapet bruker sine ressurser")]),
    ("growth", .object [("name", .text "Vekst"),
      ("description", .text "Måler selskapets utvikling over tid")])]

def standardFormulas : List Value := [
  .object [
    ("id", .text "total_assets"),
    ("name", .text "Sum eiendeler"),
    ("category", .text "base"),
    ("expression", .text "[1]")],
  .object [
    ("id", .text "current_assets"),
    ("name", .text "Omløpsmidler"),
    ("category", .text "base"),
    ("expression", .text "[1] - [10]")],
  .object [
    ("id", .text "current_liabilities"),
    ("name", .text "Kortsiktig gjeld"),
    ("category", .text "base"),
    ("expression", .text "[21] + [22]")],
  .object [
    ("id", .text "total_equity"),
    ("name", .text "Egenkapital"),
    ("category", .text "base"),
    ("expression", .text "[20]")],
  .object [
    ("id", .text "revenue"),
    ("name", .text "Driftsinntekter"),
    ("category", .text "base"),
    ("description", .text "Driftsinntekter som positivt beløp"),
    ("expression", .text "0 - [3]")],
  .object [
    ("id", .text "operating_expenses"),
    ("name", .text "Driftskostnader"),
    ("category", .text "base"),
    ("expression", .text "[4] + [5] + [6] + [7]")],
  .object [
    ("id", .text "operating_result"),
    ("name", .text "Driftsresultat"),
    ("category", .text "base"),
    ("expression", .text "\x7brevenue\x7d - \x7boperating_expenses\x7d")],
  .object [
    ("id", .text "liquidity_ratio"),
    ("name", .text "Likviditetsgrad"),
    ("category", .text "liquidity"),
    ("result_kind", .text "ratio"),
    ("expression", .text "\x7bcurrent_assets\x7d / \x7bcurrent_liabilities\x7d")],
  .object [
    ("id", .text "equity_share"),
    ("name", .text "Egenkapitalandel (grunnlag)"),
    ("category", .text "solvency"),
    ("result_kind", .text "percentage"),
    ("expression", .text "\x7btotal_equity\x7d / \x7btotal_assets\x7d * 100")],
  .object [
    ("id", .text "profit_margin"),
    ("name", .text "Resultatmargin"),
    ("category", .text "profitability"),
    ("result_kind", .text "percentage"),
    ("expression", .text "\x7boperating_result\x7d / \x7brevenue\x7d * 100")],
  .object [
    ("id", .text "gross_margin"),
    ("name", .text "Bruttofortjenestegrad"),
    ("description", .text "Bruttofortjeneste i prosent av omsetning"),
    ("category", .text "profitability"),
    ("result_kind", .text "percentage"),
    ("interpretation", .text "Høyere verdi er bedre. Viser hvor mye selskapet tjener på hvert solgte produkt før andre kostnader."),
    ("benchmarks", thresholds (.int 40) (.int 25) (.int 10)),
    ("terms", .list [
      .object [("type", .text "parenthesis"), ("parenthesis", .text "open")],
      .object [("type", .text "account"), ("account", .text "3000")],
      .object [("type", .text "account"), ("account", .text "4000"), ("operator", .text "-")],
      .object [("type", .text "parenthesis"), ("parenthesis", .text "close")],
      .object [("type", .text "account"), ("account", .text "3000"), ("operator", .text "/")],
      .object [("type", .text "constant"), ("constant", .int 100), ("operator", .text "*")]])],
  .object [
    ("id", .text "operating_margin"),
    ("name", .text "Driftsmargin"),
    ("description", .text "Driftsresultat i prosent av omsetning"),
    ("category", .text "profitability"),
    ("result_kind", .text "percentage"),
    ("interpretation", .text "Viser lønnsomheten i kjernevirksomheten. Høyere verdi er bedre."),
    ("benchmarks", thresholds (.int 15) (.int 8) (.int 2)),
    ("expression", .text "([3000] - [4000] - [5000] - [6000]) / [3000] * 100")],
  .object [
    ("id", .text "net_margin"),
    ("name", .text "Nettoresultatmargin"),
    ("description", .text "Nettoresultat i prosent av omsetning"),
    ("category", .text "profitability"),
    ("result_kind", .text "percentage"),
    ("interpretation", .text "Total lønnsomhet etter alle kostnader og inntekter. Høyere verdi er bedre."),
    ("benchmarks", thresholds (.int 10) (.int 5) (.int 1)),
    ("expression", .text "[8000] / [3000] * 100")],
  .object [
    ("id", .text "current_ratio"),
    ("name", .text "Likviditetsgrad 1"),
    ("description", .text "Omløpsmidler delt på kortsiktig gjeld"),
    ("category", .text "liquidity"),
    ("result_kind", .text "ratio"),
    ("interpretation", .text "Måler evnen til å dekke kortsiktige forpliktelser. Verdier mellom 1-2 er optimalt."),
    ("benchmarks", thresholds (.float 2.0) (.float 1.2) (.float 0.8)),
    ("terms", .list [
      .object [("type", .text "account"), ("account", .text "1500")],
      .object [("type", .text "account"), ("account", .text "2500"), ("operator", .text "/")]])],
  .object [
    ("id", .text "quick_ratio"),
    ("name", .text "Likviditetsgrad 2"),
    ("description", .text "Mest likvide omløpsmidler delt på kortsiktig gjeld"),
    ("category", .text "liquidity"),
    ("result_kind", .text "ratio"),
    ("interpretation", .text "Strengere likviditetsmål som ekskluderer mindre likvide aktiva som lager."),
    ("benchmarks", thresholds (.float 1.5) (.float 1.0) (.float 0.6)),
    ("expression", .text "([1900] + [1800] + [1700]) / [2500]")],
  .object [
    ("id", .text "equity_ratio"),
    ("name", .text "Egenkapitalandel"),
    ("description", .text "Egenkapital i prosent av totalkapital"),
    ("category", .text "solvency"),
    ("result_kind", .text "percentage"),
    ("interpretation", .text "Måler hvor stor andel av totalkapitalen som er egenkapital. Høyere verdi gir større finansiell sikkerhet."),
    ("benchmarks", thresholds (.int 40) (.int 25) (.int 15)),
    ("expression", .text "[2000] / [1000] * 100")],
  .object [
    ("id", .text "debt_to_equity"),
    ("name", .text "Gjeldsgrad"),
    ("description", .text "Total gjeld delt på egenkapital"),
    ("category", .text "solvency"),
    ("result_kind", .text "ratio"),
    ("interpretation", .text "Måler hvor mye gjeld selskapet har i forhold til egenkapitalen. Lavere verdi er generelt bedre."),
    ("benchmarks", thresholds (.float 0.5) (.float 1.0) (.float 2.0)),
    ("expression", .text "([2500] + [2300]) / [2000]")],
  .object [
    ("id", .text "asset_turnover"),
    ("name", .text "Totalkapitalens omløpshastighet"),
    ("description", .text "Omsetning delt på totalkapital"),
    ("category", .text "efficiency"),
    ("result_kind", .text "ratio"),
    ("interpretation", .text "Måler hvor effektivt selskapet bruker sine aktiva til å generere omsetning."),
    ("benchmarks", thresholds (.float 2.0) (.float 1.2) (.float 0.8)),
    ("expression", .text "[3000] / [1000]")],
  .object [
    ("id", .text "inventory_turnover"),
    ("name", .text "Lageromløpshastighet"),
    ("description", .text "Vareforbruk delt på lagerbeholdning"),
    ("category", .text "efficiency"),
    ("result_kind", .text "ratio"),
    ("interpretation", .text "Måler hvor raskt selskapet omsetter lageret. Høyere verdi indikerer effektiv lagerstyring."),
    ("benchmarks", thresholds (.int 12) (.int 6) (.int 3)),
    ("expression", .text "[4000] / [1400]")]]

def standardData : Value :=
  .object [("version", .text "2024.1"), ("categories", standardCategories),
    ("formulas", .list standardFormulas)]

def standard : Library :=
  match ofValue standardData with
  | .ok l => l
  | .error _ => empty

def standardSettingsData : Value :=
  .object [("engine", .object [("max_reference_depth", .int 32), ("concurrency_limit", .int 8),
    ("cache_max_entries", .int 4096), ("cache_ttl_seconds", .null), ("currency_label", .text "kr"),
    ("use_standard_mapping", .bool true)])]

def configLogger : String := "config"

def settingsTrace (s : SettingsData) : List (String × Value) :=
  [("trace_type", .text "FORMULA_CONFIG_TRACE"), ("max_reference_depth", s.maxReferenceDepth),
    ("concurrency_limit", s.concurrencyLimit), ("cache_max_entries", s.cacheMaxEntries)]

/-- Loads the standard settings and records what was loaded. -/
def loadSettings : Log.Recorded SettingsData := do
  let s ← Log.Recorded.attempt (SettingsData.ofValue standardSettingsData)
  Log.event Log.info configLogger "FORMULA_CONFIG_TRACE" (settingsTrace s)
  return s

def libraryTrace (l : Library) : List (String × Value) :=
  [("trace_type", .text "FORMULA_CONFIG_TRACE"), ("library_version", .text l.version),
    ("library_checksum", .text l.checksum), ("formula_count", .int l.formulas.length)]

end KeyFigures.Library
