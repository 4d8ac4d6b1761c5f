import HftTradingSystem.Download.Backtest
import Mathlib.Data.List.Sort

/-!
# Merging the monthly files

`main` merges the monthly CSVs with `merge_csv_files` and converts the merged file with
`convert_to_backtest_format`. The merge writes a header for the data type and then every line
of every file, in sorted order, as it was read: a file whose last line has no `\n` runs into the
first line of the next one. The converter skips the merge's header, and a kline line reads only
its first six fields, so the fused line converts as its first row alone and the next file's
first row is lost without an exception. When every file but the last ends its last line, the
pipeline converts the files' lines one by one, in sorted order.
-/

namespace HftTradingSystem

namespace Download

open Text

/-- A monthly CSV: its name, and its contents as text. -/
structure CsvFile where
  /-- The file name; the files share one directory, so `sorted(files)` orders by it. -/
  name : String
  content : List Char
  deriving DecidableEq, Repr

/-- The header `merge_csv_files` writes for a data type. -/
def mergeHeader (dataType : String) : List Char :=
  if dataType = "klines" then
    ("open_time,open,high,low,close,volume,close_time," ++
      "quote_volume,trades,taker_buy_base,taker_buy_quote,ignore\n").toList
  else if dataType = "aggtrades" then
    ("agg_trade_id,price,quantity,first_trade_id," ++
      "last_trade_id,timestamp,is_buyer_maker,is_best_match\n").toList
  else []

/-- `s < t` on Python strings: lexicographic, by code point. -/
def codePointLt : List Char → List Char → Bool
  | _, [] => false
  | [], _ :: _ => true
  | a :: s, b :: t => if a = b then codePointLt s t else a.toNat < b.toNat

/-- `sorted(files)`: a stable sort by name. -/
def sortFiles (files : List CsvFile) : List CsvFile :=
  files.insertionSort fun a b => !codePointLt b.name.data a.name.data

/-- `merge_csv_files`: the text of the merged file. -/
def mergeCsvFiles (files : List CsvFile) (dataType : String) : List Char :=
  mergeHeader dataType ++ ((sortFiles files).flatMap fun f => lines (readText f.content)).flatten

/-- The end of `main`: when any file came down, merge them and convert the merged file. -/
def mergeAndConvert (files : List CsvFile) (dataType : String) :
    Option (List Char × Option String) :=
  if files = [] then none
  else some (convertToBacktestFormat (mergeCsvFiles files dataType) dataType)

/-! ## The merged file -/

section Merged

variable {files : List CsvFile} {dataType : String}

theorem mergeCsvFiles_eq (files : List CsvFile) (dataType : String) :
    mergeCsvFiles files dataType =
      mergeHeader dataType ++ ((sortFiles files).map fun f => readText f.content).flatten := by
  simp [mergeCsvFiles, List.flatMap, List.flatten_flatten, Function.comp_def]

theorem not_mem_mergeCsvFiles (files : List CsvFile) (dataType : String) :
    '\r' ∉ mergeCsvFiles files dataType := by
  have hheader : '\r' ∉ mergeHeader dataType := by unfold mergeHeader; split_ifs <;> decide
  simp only [mergeCsvFiles_eq, List.mem_append, List.mem_flatten, List.mem_map]
  rintro (h | ⟨_, ⟨f, -, rfl⟩, h⟩)
  exacts [hheader h, not_mem_readText _ h]

/-- The merge's header is one line, and it does not start with a digit. -/
theorem mergeHeader_line (htype : dataType = "klines" ∨ dataType = "aggtrades") :
    lines (mergeHeader dataType) = [mergeHeader dataType] ∧ EndsLine (mergeHeader dataType) ∧
      (mergeHeader dataType).head?.any Char.isDigit = false := by
  rcases htype with rfl | rfl
  · exact ⟨@lines_line ("open_time,open,high,low,close,volume,close_time," ++
      "quote_volume,trades,taker_buy_base,taker_buy_quote,ignore").toList (by decide),
      by decide, by decide⟩
  · exact ⟨@lines_line ("agg_trade_id,price,quantity,first_trade_id," ++
      "last_trade_id,timestamp,is_buyer_maker,is_best_match").toList (by decide),
      by decide, by decide⟩

/-- The pipeline converts the lines of the files' texts run together, after the header. -/
theorem mergeAndConvert_eq (htype : dataType = "klines" ∨ dataType = "aggtrades")
    (hfiles : files ≠ []) :
    let body := ((sortFiles files).map fun f => readText f.content).flatten
    mergeAndConvert files dataType = some (backtestHeader ++ (convertLines dataType (lines body)).1,
      (convertLines dataType (lines body)).2) := by
  obtain ⟨hlines, hends, hdigit⟩ := mergeHeader_line htype
  rw [mergeAndConvert, if_neg hfiles, convertToBacktestFormat,
    readText_of_not_mem (not_mem_mergeCsvFiles files dataType), mergeCsvFiles_eq,
    lines_append hends, hlines]
  simp [hdigit]

/-- When every file but the last ends its last line, the pipeline converts the files' lines
one by one, in sorted order: no line is lost, fused or repeated. -/
theorem mergeAndConvert_of_endsLine (htype : dataType = "klines" ∨ dataType = "aggtrades")
    (hfiles : files ≠ [])
    (hends : ∀ f ∈ (sortFiles files).dropLast, EndsLine (readText f.content)) :
    let rows := (sortFiles files).flatMap fun f => lines (readText f.content)
    mergeAndConvert files dataType =
      some (backtestHeader ++ (convertLines dataType rows).1, (convertLines dataType rows).2) := by
  have hbody : ∀ t ∈ ((sortFiles files).map fun f => readText f.content).dropLast, EndsLine t := by
    simpa [← List.map_dropLast] using hends
  rw [mergeAndConvert_eq htype hfiles, lines_flatten hbody, List.flatMap_map]

end Merged

/-! ## A row lost at a month boundary -/

/-- November's kline file, its last row without a newline. -/
def november : CsvFile :=
  ⟨"BTCUSDT-1m-2023-11.csv",
    ("1701388740000,37700.0,37712.5,37695.0,37710.0,12.5," ++
      "1701388799999,471375.0,420,6.1,230000.0,0").toList⟩

/-- December's kline file. -/
def december : CsvFile :=
  ⟨"BTCUSDT-1m-2023-12.csv",
    ("1701388800000,37710.0,37725.0,37705.0,37720.5,10.0," ++
      "1701388859999,377200.0,380,5.0,188600.0,0\n").toList⟩

/-- November's file with its last line ended. -/
def novemberEnded : CsvFile := ⟨november.name, november.content ++ ['\n']⟩

theorem mergeAndConvert_of_endsLine_two_months :
    ("klines" = "klines" ∨ "klines" = "aggtrades") ∧ [december, novemberEnded] ≠ [] ∧
      (∀ f ∈ (sortFiles [december, novemberEnded]).dropLast, EndsLine (readText f.content)) ∧
      let rows := (sortFiles [december, novemberEnded]).flatMap fun f => lines (readText f.content)
      mergeAndConvert [december, novemberEnded] "klines" =
        some (backtestHeader ++ (convertLines "klines" rows).1, (convertLines "klines" rows).2) :=
  ⟨.inl rfl, by decide, by decide, mergeAndConvert_of_endsLine (.inl rfl) (by decide) (by decide)⟩

theorem convertRow_fused :
    convertRow "klines" (november.content ++ december.content) =
      .ok (some ⟨1701388740000, 377091250, 377108750, 12, 12⟩) := by
  have hrow : convertKline ((strip (november.content ++ december.content)).splitOn ',') =
      .ok (klineRow 1701388740000 (Decimal.value ⟨false, 377100, -1⟩)
        (Decimal.value ⟨false, 125, -1⟩) (Decimal.value ⟨false, 377125, -1⟩)
        (Decimal.value ⟨false, 376950, -1⟩)) :=
    convertKline_eq_ok.2 ⟨_, _, _, _, _, by decide, floatField_of_decimalLiteral (by decide),
      floatField_of_decimalLiteral (by decide), floatField_of_decimalLiteral (by decide),
      floatField_of_decimalLiteral (by decide), rfl⟩
  rw [convertRow, if_pos rfl, hrow]
  norm_num [klineRow, Decimal.value, signed, truncate]
  decide

/-- Two monthly files, November's last row without a newline: the pipeline raises nothing and
writes one row, November's; December's first row is lost. -/
theorem mergeAndConvert_loses_row :
    mergeAndConvert [december, november] "klines" =
      some (backtestHeader ++ "1701388740000,377091250,377108750,12,12\n".toList, none) := by
  have hsort : sortFiles [december, november] = [november, december] := by decide
  have hfused : lines (november.content ++ december.content) =
      [november.content ++ december.content] :=
    @lines_line (november.content ++ december.content.dropLast) (by decide)
  rw [mergeAndConvert_eq (.inl rfl) (by decide), hsort]
  simp only [List.map, List.flatten, List.append_nil]
  rw [readText_of_not_mem (by decide : '\r' ∉ november.content),
    readText_of_not_mem (by decide : '\r' ∉ december.content), hfused]
  simp only [convertLines, convertRow_fused]
  rfl

end Download

end HftTradingSystem
