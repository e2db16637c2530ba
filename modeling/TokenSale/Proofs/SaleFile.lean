import TokenSale.Proofs.Json.Ascii
import TokenSale.SaleFile

/-!
A sale through its data and through a file. The data of a valid sale reads back as the sale, and so
does a file that is not YAML and holds the sale as indented JSON.
-/

namespace TokenSale

open Datum

/-! The data of a sale is plain. -/

theorem Datum.plain_ofOption {g : α → Datum} (h : ∀ a, Plain (g a)) (o : Option α) :
    Plain (ofOption g o) := by
  cases o with
  | none => exact .null
  | some a => exact h a

theorem Datum.plain_list_map {g : α → Datum} (h : ∀ a, Plain (g a)) (as : List α) :
    Plain (.list (as.map g)) :=
  .list _ fun _ hx => by
    obtain ⟨a, -, rfl⟩ := List.mem_map.mp hx
    exact h a

theorem Vesting.plain_toDatum (v : Vesting) : Plain v.toDatum :=
  .record _ (by simp) (by simp [Plain.int, Plain.text, plain_ofOption Plain.int])

theorem Stakeholder.plain_toDatum (h : Stakeholder) : Plain h.toDatum :=
  .record _ (by simp) (by simp [Plain.int, Plain.text, plain_ofOption Vesting.plain_toDatum])

theorem Split.plain_toDatum (s : Split) : Plain s.toDatum :=
  .record _ (by simp) (by simp [Plain.int, Plain.text])

theorem Plan.plain_toDatum (p : Plan) : Plain p.toDatum :=
  .record _ (by simp) (by
    simp [Plain.int, Plain.text, plain_list_map Stakeholder.plain_toDatum,
      plain_ofOption Split.plain_toDatum])

theorem Discount.plain_toDatum (d : Discount) : Plain d.toDatum :=
  .record _ (by simp) (by simp [Plain.int, draft])

theorem Mechanic.plain_toDatum (m : Mechanic) : Plain m.toDatum := by
  cases m with
  | fixedPrice p =>
    exact .record _ (by simp) (by
      simpa using Plain.record _ (by simp) (by simp [Plain.int]))
  | priceDiscovery =>
    exact .record _ (by simp) (by simpa using Plain.record _ (by simp) (by simp))

theorem Sale.plain_toDatum (s : Sale) : Plain s.toDatum := by
  have hmechanic : Plain s.mechanic.draft.toDatum := s.mechanic.plain_toDatum
  have hdiscounts :
      Plain (.list ((s.discounts.map Discount.draft).map Discount.Draft.toDatum)) := by
    rw [List.map_map]
    exact plain_list_map Discount.plain_toDatum s.discounts
  have htge : Plain (ofOption id (s.tge.map .int)) := by
    cases s.tge with
    | none => exact .null
    | some t => exact .int t
  refine .record _ (by simp) ?_
  simp [draft, Plain.int, Plain.text, hmechanic, plain_ofOption Vesting.plain_toDatum,
    plain_ofOption Plan.plain_toDatum, hdiscounts, htge, -List.map_map]

namespace SaleFile

theorem joinLines_eq {s : List Char} (h : '\r' ∉ s) : joinLines s = s := by
  fun_induction joinLines s with
  | case1 cs ih => simp at h
  | case2 cs _ ih => simp at h
  | case3 c cs _ _ ih => rw [ih (fun hmem => h (List.mem_cons_of_mem c hmem))]
  | case4 => rfl

theorem joinLines_of_ascii {s : List Char} (h : Json.Ascii s) : joinLines s = s :=
  joinLines_eq fun hmem => absurd (h '\r' hmem) (by decide)

theorem suffix_append_json (before : List Char) :
    suffix (before ++ ".json".toList) = [] ∨
      suffix (before ++ ".json".toList) = ".json".toList := by
  have hafter : ((before ++ ".json".toList).reverse.takeWhile (· != '.')).reverse =
      "json".toList := by simp
  rw [suffix, hafter]
  split
  · exact .inl rfl
  · exact .inr rfl

theorem isYaml_json (stem : String) : isYaml (stem ++ ".json") = false := by
  have hname : ((stem ++ ".json").toList.reverse.takeWhile (· != '/')).reverse =
      (stem.toList.reverse.takeWhile (· != '/')).reverse ++ ".json".toList := by
    simp [String.toList_append]
  simp only [isYaml, hname]
  rcases suffix_append_json (stem.toList.reverse.takeWhile (· != '/')).reverse with h | h <;>
    rw [h] <;> decide

/-! The normal form of a path keeps what its last part ends in. -/

theorem parts_of_no_slash {cs : List Char} (h : '/' ∉ cs) : parts cs = [cs] := by
  induction cs with
  | nil => rfl
  | cons c cs ih =>
    rw [List.mem_cons, not_or] at h
    rw [parts, if_neg (Ne.symm h.1), ih h.2]
    rfl

theorem parts_append (s : List Char) {ending : List Char} (h : '/' ∉ ending) :
    ∃ front last, parts (s ++ ending) = front ++ [last ++ ending] := by
  induction s with
  | nil => exact ⟨[], [], parts_of_no_slash h⟩
  | cons c s ih =>
    obtain ⟨front, last, hparts⟩ := ih
    rw [List.cons_append, parts, hparts]
    split
    · exact ⟨[] :: front, last, rfl⟩
    · cases front with
      | nil => exact ⟨[], c :: last, rfl⟩
      | cons p front => exact ⟨(c :: p) :: front, last, rfl⟩

theorem intercalate_concat (sep : List Char) (xs : List (List Char)) (x : List Char) :
    ∃ front, sep.intercalate (xs ++ [x]) = front ++ x := by
  induction xs with
  | nil => exact ⟨[], by simp⟩
  | cons a xs ih =>
    obtain ⟨front, hfront⟩ := ih
    have hne : xs ++ [x] ≠ [] := by simp
    rw [List.cons_append, List.intercalate_cons_of_ne_nil hne, hfront]
    exact ⟨a ++ sep ++ front, by simp⟩

theorem normalPath_json (stem : String) :
    ∃ stem', normalPath (stem ++ ".json") = stem' ++ ".json" := by
  obtain ⟨front, last, hparts⟩ : ∃ front last,
      parts (stem ++ ".json").toList = front ++ [last ++ ".json".toList] := by
    rw [String.toList_append]
    exact parts_append stem.toList (by decide)
  -- what ends in the suffix is neither empty nor a dot
  have hkept : [last ++ ".json".toList].filter (fun p => p != [] && p != ['.']) =
      [last ++ ".json".toList] := by
    cases last <;> simp
  obtain ⟨before, hbefore⟩ := intercalate_concat ['/']
    (front.filter fun p => p != [] && p != ['.']) (last ++ ".json".toList)
  refine ⟨String.ofList (root (stem ++ ".json").toList ++ before ++ last), ?_⟩
  have hwhole : root (stem ++ ".json").toList ++ (before ++ (last ++ ".json".toList)) =
      root (stem ++ ".json").toList ++ before ++ last ++ ".json".toList := by
    simp only [List.append_assoc]
  simp only [normalPath, hparts, List.filter_append, hkept, hbefore, hwhole]
  rw [if_neg (by simp), String.ofList_append, String.ofList_toList]

variable {files : Files} {path : String}

theorem readMapping_json {d : Datum} {es : List (Scalar × Datum)}
    (hjson : isYaml (normalPath path) = false)
    (hfile : files.lookup (normalPath path) = some (Json.indented d)) (hplain : Plain d)
    (hsorted : Json.sorted d = .map es) : readMapping files path = .ok (.map es) := by
  have hjoin : joinLines (Json.indented d).toList = (Json.indented d).toList :=
    joinLines_of_ascii (Json.ascii_indentedAt hplain 0)
  have hne : Json.indented d ≠ "" := fun heq => by
    have := (Json.writes_indentedAt hplain 0).length_pos
    rw [show Json.indentedAt 0 d = "" from heq] at this
    exact absurd this (by decide)
  simp [readMapping, hfile, hjson, hjoin, readJson, hne, Json.read?_indented hplain, hsorted]

theorem ofDatum_of_sale {es : List (Scalar × Datum)} {s : Sale}
    (hdesk : Datum.lookup "engine" es = none) (h : Sale.ofDatum (.map es) = .ok s) :
    ofDatum (.map es) = .ok ⟨s, {}⟩ := by
  simp [ofDatum, deskPart, Datum.field?, hdesk, h, Datum.present?, Datum.lookup, Datum.optionalInt,
    Settings.validate]

theorem read_json {s : Sale} (hvalid : s.validate = .ok ())
    (hjson : isYaml (normalPath path) = false)
    (hfile : files.lookup (normalPath path) = some s.draft.pretty) :
    read files path = .ok ⟨s, {}⟩ := by
  obtain ⟨es, hes, hlookup⟩ := Json.rearranges_sorted.entries (d := s.toDatum) rfl (by simp)
  have hread := readMapping_json hjson hfile s.plain_toDatum hes
  have hsale := Sale.ofDatum_toDatum Json.rearranges_sorted hvalid
  rw [hes] at hsale
  have hdesk : Datum.lookup "engine" es = none := by simp [hlookup, List.lookup_cons]
  rw [read, hread]
  exact ofDatum_of_sale hdesk hsale

end SaleFile

/-- A valid sale is read back from its data; what is read from any data is a valid sale and reads
back as itself; and a JSON file that holds a valid sale gives it with the standard settings, as
every file does whose path ends in `.json`. -/
theorem SaleFile.round_trip :
    (∀ s : Sale, s.validate = .ok () → Sale.ofDatum s.toDatum = .ok s) ∧
    (∀ d s, Sale.ofDatum d = .ok s → s.validate = .ok () ∧ Sale.ofDatum s.toDatum = .ok s) ∧
    (∀ stem, isYaml (stem ++ ".json") = false) ∧
    (∀ (files : Files) (path : String) (s : Sale), s.validate = .ok () →
      isYaml (normalPath path) = false →
      files.lookup (normalPath path) = some s.draft.pretty → read files path = .ok ⟨s, {}⟩) ∧
    ∀ (files : Files) (stem : String) (s : Sale), s.validate = .ok () →
      files.lookup (normalPath (stem ++ ".json")) = some s.draft.pretty →
      read files (stem ++ ".json") = .ok ⟨s, {}⟩ := by
  have hback : ∀ s : Sale, s.validate = .ok () → Sale.ofDatum s.toDatum = .ok s := fun s h =>
    Sale.ofDatum_toDatum rearranges_id h
  refine ⟨hback, fun d s h => ?_, isYaml_json, fun files path s => read_json,
    fun files stem s hvalid => read_json hvalid ?_⟩
  · have hvalid := Sale.validate_of_ofDatum h
    exact ⟨hvalid, hback s hvalid⟩
  · obtain ⟨stem', hpath⟩ := normalPath_json stem
    rw [hpath]
    exact isYaml_json stem'

def fullSale : Sale where
  depositToken := "usdc"
  saleToken := "tök"
  startTime := 0
  endTime := 100
  softCap := 10
  mechanic := .fixedPrice ⟨2, 3⟩
  saleAmount := 1000
  totalSaleAmount := 1100
  vesting := some ⟨10, 100, some 500, .afterCliff⟩
  plan := some
    { solver := "solver"
      solverAllocation := 50
      stakeholders := [⟨"ann", 30, none⟩, ⟨"vic", 20, some ⟨10, 100, none, .immediate⟩⟩]
      deposits := some ⟨9000, "fees", 500⟩ }
  discounts := [⟨-50, 50, 2000⟩, ⟨50, 80, 5000⟩]
  minDeposit := 1
  tge := some 200

theorem SaleFile.round_trip_full :
    fullSale.validate = .ok () ∧ Sale.ofDatum fullSale.toDatum = .ok fullSale ∧
      read [("sale.json", fullSale.draft.pretty)] "./sale.json" = .ok ⟨fullSale, {}⟩ := by
  obtain ⟨hback, hvalid, -, -, hread⟩ := SaleFile.round_trip
  have hok : fullSale.validate = .ok () := rfl
  have hdatum := hback fullSale hok
  have hpath : normalPath "./sale.json" = "sale.json" := by decide
  refine ⟨(hvalid _ _ hdatum).1, hdatum, hread _ "./sale" _ hok ?_⟩
  rw [show "./sale" ++ ".json" = "./sale.json" by decide, hpath]
  simp

end TokenSale
