import Ollog.Callsign.RangeLookup

/-!
# The table of the ITU

The allocations of call sign series as the ITU publishes them, with the two-letter codes of the
countries.  The source has the table by the names of the members, and joins and sorts it when the
module is loaded; `ituRanges` is what comes of that.  The ranges do not overlap, so they are an
`ituTable`.
-/

set_option autoImplicit false

namespace Ollog

open Bisect

/-- `_RANGES`; members of the ITU that are no country have no code. -/
def ituRanges : List SeriesRange := [
  ⟨"2AA", "2ZZ", some "GB"⟩, ⟨"3AA", "3AZ", some "MC"⟩, ⟨"3BA", "3BZ", some "MU"⟩,
  ⟨"3CA", "3CZ", some "GQ"⟩, ⟨"3DA", "3DM", some "SZ"⟩, ⟨"3DN", "3DZ", some "FJ"⟩,
  ⟨"3EA", "3FZ", some "PA"⟩, ⟨"3GA", "3GZ", some "CL"⟩, ⟨"3HA", "3UZ", some "CN"⟩,
  ⟨"3VA", "3VZ", some "TN"⟩, ⟨"3WA", "3WZ", some "VN"⟩, ⟨"3XA", "3XZ", some "GN"⟩,
  ⟨"3YA", "3YZ", some "NO"⟩, ⟨"3ZA", "3ZZ", some "PL"⟩, ⟨"4AA", "4CZ", some "MX"⟩,
  ⟨"4DA", "4IZ", some "PH"⟩, ⟨"4JA", "4KZ", some "AZ"⟩, ⟨"4LA", "4LZ", some "GE"⟩,
  ⟨"4MA", "4MZ", some "VE"⟩, ⟨"4NA", "4OZ", some "RS"⟩, ⟨"4PA", "4SZ", some "LK"⟩,
  ⟨"4TA", "4TZ", some "PE"⟩, ⟨"4UA", "4UZ", none⟩, ⟨"4VA", "4VZ", some "HT"⟩,
  ⟨"4WA", "4WZ", some "TL"⟩, ⟨"4XA", "4XZ", some "IL"⟩, ⟨"4YA", "4YZ", none⟩,
  ⟨"4ZA", "4ZZ", some "IL"⟩, ⟨"5AA", "5AZ", some "LY"⟩, ⟨"5BA", "5BZ", some "CY"⟩,
  ⟨"5CA", "5GZ", some "MA"⟩, ⟨"5HA", "5IZ", some "TZ"⟩, ⟨"5JA", "5KZ", some "CO"⟩,
  ⟨"5LA", "5MZ", some "LR"⟩, ⟨"5NA", "5OZ", some "NG"⟩, ⟨"5PA", "5QZ", some "DK"⟩,
  ⟨"5RA", "5SZ", some "MG"⟩, ⟨"5TA", "5TZ", some "MR"⟩, ⟨"5UA", "5UZ", some "NE"⟩,
  ⟨"5VA", "5VZ", some "TG"⟩, ⟨"5WA", "5WZ", some "WS"⟩, ⟨"5XA", "5XZ", some "UG"⟩,
  ⟨"5YA", "5ZZ", some "KE"⟩, ⟨"6AA", "6BZ", some "EG"⟩, ⟨"6CA", "6CZ", some "SY"⟩,
  ⟨"6DA", "6JZ", some "MX"⟩, ⟨"6KA", "6NZ", some "KR"⟩, ⟨"6OA", "6OZ", some "SO"⟩,
  ⟨"6PA", "6SZ", some "PK"⟩, ⟨"6TA", "6UZ", some "SD"⟩, ⟨"6VA", "6WZ", some "SN"⟩,
  ⟨"6XA", "6XZ", some "MG"⟩, ⟨"6YA", "6YZ", some "JM"⟩, ⟨"6ZA", "6ZZ", some "LR"⟩,
  ⟨"7AA", "7IZ", some "ID"⟩, ⟨"7JA", "7NZ", some "JP"⟩, ⟨"7OA", "7OZ", some "YE"⟩,
  ⟨"7PA", "7PZ", some "LS"⟩, ⟨"7QA", "7QZ", some "MW"⟩, ⟨"7RA", "7RZ", some "DZ"⟩,
  ⟨"7SA", "7SZ", some "SE"⟩, ⟨"7TA", "7YZ", some "DZ"⟩, ⟨"7ZA", "7ZZ", some "SA"⟩,
  ⟨"8AA", "8IZ", some "ID"⟩, ⟨"8JA", "8NZ", some "JP"⟩, ⟨"8OA", "8OZ", some "BW"⟩,
  ⟨"8PA", "8PZ", some "BB"⟩, ⟨"8QA", "8QZ", some "MV"⟩, ⟨"8RA", "8RZ", some "GY"⟩,
  ⟨"8SA", "8SZ", some "SE"⟩, ⟨"8TA", "8YZ", some "IN"⟩, ⟨"8ZA", "8ZZ", some "SA"⟩,
  ⟨"9AA", "9AZ", some "HR"⟩, ⟨"9BA", "9DZ", some "IR"⟩, ⟨"9EA", "9FZ", some "ET"⟩,
  ⟨"9GA", "9GZ", some "GH"⟩, ⟨"9HA", "9HZ", some "MT"⟩, ⟨"9IA", "9IZ", some "ZM"⟩,
  ⟨"9JA", "9JZ", some "ZM"⟩, ⟨"9KA", "9KZ", some "KW"⟩, ⟨"9LA", "9LZ", some "SL"⟩,
  ⟨"9MA", "9MZ", some "MY"⟩, ⟨"9NA", "9NZ", some "NP"⟩, ⟨"9OA", "9TZ", some "CD"⟩,
  ⟨"9UA", "9UZ", some "BI"⟩, ⟨"9VA", "9VZ", some "SG"⟩, ⟨"9WA", "9WZ", some "MY"⟩,
  ⟨"9XA", "9XZ", some "RW"⟩, ⟨"9YA", "9ZZ", some "TT"⟩, ⟨"A2A", "A2Z", some "BW"⟩,
  ⟨"A3A", "A3Z", some "TO"⟩, ⟨"A4A", "A4Z", some "OM"⟩, ⟨"A5A", "A5Z", some "BT"⟩,
  ⟨"A6A", "A6Z", some "AE"⟩, ⟨"A7A", "A7Z", some "QA"⟩, ⟨"A8A", "A8Z", some "LR"⟩,
  ⟨"A9A", "A9Z", some "BH"⟩, ⟨"AAA", "ALZ", some "US"⟩, ⟨"AMA", "AOZ", some "ES"⟩,
  ⟨"APA", "ASZ", some "PK"⟩, ⟨"ATA", "AWZ", some "IN"⟩, ⟨"AXA", "AXZ", some "AU"⟩,
  ⟨"AYA", "AZZ", some "AR"⟩, ⟨"BAA", "BZZ", some "CN"⟩, ⟨"C2A", "C2Z", some "NR"⟩,
  ⟨"C3A", "C3Z", some "AD"⟩, ⟨"C4A", "C4Z", some "CY"⟩, ⟨"C5A", "C5Z", some "GM"⟩,
  ⟨"C6A", "C6Z", some "BS"⟩, ⟨"C7A", "C7Z", none⟩, ⟨"C8A", "C9Z", some "MZ"⟩,
  ⟨"CAA", "CEZ", some "CL"⟩, ⟨"CFA", "CKZ", some "CA"⟩, ⟨"CLA", "CMZ", some "CU"⟩,
  ⟨"CNA", "CNZ", some "MA"⟩, ⟨"COA", "COZ", some "CU"⟩, ⟨"CPA", "CPZ", some "BO"⟩,
  ⟨"CQA", "CUZ", some "PT"⟩, ⟨"CVA", "CXZ", some "UY"⟩, ⟨"CYA", "CZZ", some "CA"⟩,
  ⟨"D2A", "D3Z", some "AO"⟩, ⟨"D4A", "D4Z", some "CV"⟩, ⟨"D5A", "D5Z", some "LR"⟩,
  ⟨"D6A", "D6Z", some "KM"⟩, ⟨"D7A", "D9Z", some "KR"⟩, ⟨"DAA", "DRZ", some "DE"⟩,
  ⟨"DSA", "DTZ", some "KR"⟩, ⟨"DUA", "DUZ", some "PH"⟩, ⟨"DVA", "DXZ", some "PH"⟩,
  ⟨"DYA", "DZZ", some "PH"⟩, ⟨"E2A", "E2Z", some "TH"⟩, ⟨"E3A", "E3Z", some "ER"⟩,
  ⟨"E4A", "E4Z", some "PS"⟩, ⟨"E5A", "E5Z", some "CK"⟩, ⟨"E6A", "E6Z", some "NU"⟩,
  ⟨"E7A", "E7Z", some "BA"⟩, ⟨"EAA", "EHZ", some "ES"⟩, ⟨"EIA", "EJZ", some "IE"⟩,
  ⟨"EKA", "EKZ", some "AM"⟩, ⟨"ELA", "ELZ", some "LR"⟩, ⟨"EMA", "EOZ", some "UA"⟩,
  ⟨"EPA", "EQZ", some "IR"⟩, ⟨"ERA", "ERZ", some "MD"⟩, ⟨"ESA", "ESZ", some "EE"⟩,
  ⟨"ETA", "ETZ", some "ET"⟩, ⟨"EUA", "EWZ", some "BY"⟩, ⟨"EXA", "EXZ", some "KG"⟩,
  ⟨"EYA", "EYZ", some "TJ"⟩, ⟨"EZA", "EZZ", some "TM"⟩, ⟨"FAA", "FZZ", some "FR"⟩,
  ⟨"GAA", "GZZ", some "GB"⟩, ⟨"H2A", "H2Z", some "CY"⟩, ⟨"H3A", "H3Z", some "PA"⟩,
  ⟨"H4A", "H4Z", some "SB"⟩, ⟨"H6A", "H7Z", some "NI"⟩, ⟨"H8A", "H9Z", some "PA"⟩,
  ⟨"HAA", "HAZ", some "HU"⟩, ⟨"HBA", "HBZ", some "CH"⟩, ⟨"HCA", "HDZ", some "EC"⟩,
  ⟨"HEA", "HEZ", some "CH"⟩, ⟨"HFA", "HFZ", some "PL"⟩, ⟨"HGA", "HGZ", some "HU"⟩,
  ⟨"HHA", "HHZ", some "HT"⟩, ⟨"HIA", "HIZ", some "DO"⟩, ⟨"HJA", "HKZ", some "CO"⟩,
  ⟨"HLA", "HLZ", some "KR"⟩, ⟨"HMA", "HMZ", some "KP"⟩, ⟨"HNA", "HNZ", some "IQ"⟩,
  ⟨"HOA", "HPZ", some "PA"⟩, ⟨"HQA", "HRZ", some "HN"⟩, ⟨"HSA", "HSZ", some "TH"⟩,
  ⟨"HTA", "HTZ", some "NI"⟩, ⟨"HUA", "HUZ", some "SV"⟩, ⟨"HVA", "HVZ", some "VA"⟩,
  ⟨"HWA", "HYZ", some "FR"⟩, ⟨"HZA", "HZZ", some "SA"⟩, ⟨"IAA", "IZZ", some "IT"⟩,
  ⟨"J2A", "J2Z", some "DJ"⟩, ⟨"J3A", "J3Z", some "GD"⟩, ⟨"J4A", "J4Z", some "GR"⟩,
  ⟨"J5A", "J5Z", some "GW"⟩, ⟨"J6A", "J6Z", some "LC"⟩, ⟨"J7A", "J7Z", some "DM"⟩,
  ⟨"J8A", "J8Z", some "VC"⟩, ⟨"JAA", "JSZ", some "JP"⟩, ⟨"JTA", "JVZ", some "MN"⟩,
  ⟨"JWA", "JXZ", some "NO"⟩, ⟨"JYA", "JYZ", some "JO"⟩, ⟨"JZA", "JZZ", some "ID"⟩,
  ⟨"KAA", "KZZ", some "US"⟩, ⟨"L2A", "L9Z", some "AR"⟩, ⟨"LAA", "LNZ", some "NO"⟩,
  ⟨"LOA", "LWZ", some "AR"⟩, ⟨"LXA", "LXZ", some "LU"⟩, ⟨"LYA", "LYZ", some "LT"⟩,
  ⟨"LZA", "LZZ", some "BG"⟩, ⟨"MAA", "MZZ", some "GB"⟩, ⟨"NAA", "NZZ", some "US"⟩,
  ⟨"OAA", "OCZ", some "PE"⟩, ⟨"ODA", "ODZ", some "LB"⟩, ⟨"OEA", "OEZ", some "AT"⟩,
  ⟨"OFA", "OJZ", some "FI"⟩, ⟨"OKA", "OLZ", some "CZ"⟩, ⟨"OMA", "OMZ", some "SK"⟩,
  ⟨"ONA", "OTZ", some "BE"⟩, ⟨"OUA", "OZZ", some "DK"⟩, ⟨"P2A", "P2Z", some "PG"⟩,
  ⟨"P3A", "P3Z", some "CY"⟩, ⟨"P4A", "P4Z", some "NL"⟩, ⟨"P5A", "P9Z", some "KP"⟩,
  ⟨"PAA", "PIZ", some "NL"⟩, ⟨"PJA", "PJZ", some "NL"⟩, ⟨"PKA", "POZ", some "ID"⟩,
  ⟨"PPA", "PYZ", some "BR"⟩, ⟨"PZA", "PZZ", some "SR"⟩, ⟨"RAA", "RZZ", some "RU"⟩,
  ⟨"S2A", "S3Z", some "BD"⟩, ⟨"S5A", "S5Z", some "SI"⟩, ⟨"S6A", "S6Z", some "SG"⟩,
  ⟨"S7A", "S7Z", some "SC"⟩, ⟨"S8A", "S8Z", some "ZA"⟩, ⟨"S9A", "S9Z", some "ST"⟩,
  ⟨"SAA", "SMZ", some "SE"⟩, ⟨"SNA", "SRZ", some "PL"⟩, ⟨"SSA", "SSM", some "EG"⟩,
  ⟨"SSN", "STZ", some "SD"⟩, ⟨"SUA", "SUZ", some "EG"⟩, ⟨"SVA", "SZZ", some "GR"⟩,
  ⟨"T2A", "T2Z", some "TV"⟩, ⟨"T3A", "T3Z", some "KI"⟩, ⟨"T4A", "T4Z", some "CU"⟩,
  ⟨"T5A", "T5Z", some "SO"⟩, ⟨"T6A", "T6Z", some "AF"⟩, ⟨"T7A", "T7Z", some "SM"⟩,
  ⟨"T8A", "T8Z", some "PW"⟩, ⟨"TAA", "TCZ", some "TR"⟩, ⟨"TDA", "TDZ", some "GT"⟩,
  ⟨"TEA", "TEZ", some "CR"⟩, ⟨"TFA", "TFZ", some "IS"⟩, ⟨"TGA", "TGZ", some "GT"⟩,
  ⟨"THA", "THZ", some "FR"⟩, ⟨"TIA", "TIZ", some "CR"⟩, ⟨"TJA", "TJZ", some "CM"⟩,
  ⟨"TKA", "TKZ", some "FR"⟩, ⟨"TLA", "TLZ", some "CF"⟩, ⟨"TMA", "TMZ", some "FR"⟩,
  ⟨"TNA", "TNZ", some "CG"⟩, ⟨"TOA", "TQZ", some "FR"⟩, ⟨"TRA", "TRZ", some "GA"⟩,
  ⟨"TSA", "TSZ", some "TN"⟩, ⟨"TTA", "TTZ", some "TD"⟩, ⟨"TUA", "TUZ", some "CI"⟩,
  ⟨"TVA", "TXZ", some "FR"⟩, ⟨"TYA", "TYZ", some "BJ"⟩, ⟨"TZA", "TZZ", some "ML"⟩,
  ⟨"UAA", "UIZ", some "RU"⟩, ⟨"UJA", "UMZ", some "UZ"⟩, ⟨"UNA", "UQZ", some "KZ"⟩,
  ⟨"URA", "UZZ", some "UA"⟩, ⟨"V2A", "V2Z", some "AG"⟩, ⟨"V3A", "V3Z", some "BZ"⟩,
  ⟨"V4A", "V4Z", some "KN"⟩, ⟨"V5A", "V5Z", some "NA"⟩, ⟨"V6A", "V6Z", some "FM"⟩,
  ⟨"V7A", "V7Z", some "MH"⟩, ⟨"V8A", "V8Z", some "BN"⟩, ⟨"VAA", "VGZ", some "CA"⟩,
  ⟨"VHA", "VNZ", some "AU"⟩, ⟨"VOA", "VOZ", some "CA"⟩, ⟨"VPA", "VQZ", some "GB"⟩,
  ⟨"VRA", "VRZ", some "CN"⟩, ⟨"VSA", "VSZ", some "GB"⟩, ⟨"VTA", "VWZ", some "IN"⟩,
  ⟨"VXA", "VYZ", some "CA"⟩, ⟨"VZA", "VZZ", some "AU"⟩, ⟨"WAA", "WZZ", some "US"⟩,
  ⟨"XAA", "XIZ", some "MX"⟩, ⟨"XJA", "XOZ", some "CA"⟩, ⟨"XPA", "XPZ", some "DK"⟩,
  ⟨"XQA", "XRZ", some "CL"⟩, ⟨"XSA", "XSZ", some "CN"⟩, ⟨"XTA", "XTZ", some "BF"⟩,
  ⟨"XUA", "XUZ", some "KH"⟩, ⟨"XVA", "XVZ", some "VN"⟩, ⟨"XWA", "XWZ", some "LA"⟩,
  ⟨"XXA", "XXZ", some "PT"⟩, ⟨"XYA", "XZZ", some "MM"⟩, ⟨"Y2A", "Y9Z", some "DE"⟩,
  ⟨"YAA", "YAZ", some "AF"⟩, ⟨"YBA", "YHZ", some "ID"⟩, ⟨"YIA", "YIZ", some "IQ"⟩,
  ⟨"YJA", "YJZ", some "VU"⟩, ⟨"YKA", "YKZ", some "SY"⟩, ⟨"YLA", "YLZ", some "LV"⟩,
  ⟨"YMA", "YMZ", some "TR"⟩, ⟨"YNA", "YNZ", some "NI"⟩, ⟨"YOA", "YRZ", some "RO"⟩,
  ⟨"YSA", "YSZ", some "SV"⟩, ⟨"YTA", "YUZ", some "RS"⟩, ⟨"YVA", "YYZ", some "VE"⟩,
  ⟨"YZA", "YZZ", some "RS"⟩, ⟨"Z2A", "Z2Z", some "ZW"⟩, ⟨"Z3A", "Z3Z", some "MK"⟩,
  ⟨"Z6A", "Z6Z", some "XK"⟩, ⟨"Z8A", "Z8Z", some "SS"⟩, ⟨"ZAA", "ZAZ", some "AL"⟩,
  ⟨"ZBA", "ZJZ", some "GB"⟩, ⟨"ZKA", "ZMZ", some "NZ"⟩, ⟨"ZNA", "ZOZ", some "GB"⟩,
  ⟨"ZPA", "ZPZ", some "PY"⟩, ⟨"ZQA", "ZQZ", some "GB"⟩, ⟨"ZRA", "ZUZ", some "ZA"⟩,
  ⟨"ZVA", "ZZZ", some "BR"⟩]

/-- What the table is checked for, all at once: it is the reading of the endpoints that takes time.
A series that begins with a digit goes on with letters, and has one first digit; and none of them
reaches from before `3D` into it. -/
theorem checked_ituRanges :
    (∀ r ∈ ituRanges, (IsSeries r.start ∧ IsSeries r.stop) ∧ r.start.toList ≤ r.stop.toList ∧
      ((r.start.toList.take 1).all Char.isDigit = true →
        r.stop.toList.take 1 = r.start.toList.take 1 ∧
        (r.start.toList.drop 1).all Char.isUpper = true ∧
        (r.start.toList.take 2 < ['3', 'D'] → r.stop.toList.take 2 < ['3', 'D']))) ∧
    ituRanges.IsChain fun r r' ↦
      r.stop.toList < r'.start.toList ∧ r'.start.toList ≤ r'.stop.toList := by
  decide +kernel

theorem series_ituRanges : ∀ r ∈ ituRanges, IsSeries r.start ∧ IsSeries r.stop :=
  fun r hr ↦ (checked_ituRanges.1 r hr).1

theorem isChain_ituRanges : ituRanges.IsChain fun r r' ↦
    r.stop.toList < r'.start.toList ∧ r'.start.toList ≤ r'.stop.toList :=
  checked_ituRanges.2

theorem bounds_ituRanges : ∀ r ∈ ituRanges, r.start.toList ≤ r.stop.toList :=
  fun r hr ↦ (checked_ituRanges.1 r hr).2.1

theorem ordered_ituRanges :
    Ordered (fun r : SeriesRange ↦ r.start.toList) (fun r ↦ r.stop.toList) ituRanges :=
  .of_isChain bounds_ituRanges isChain_ituRanges

/-- The table of the ITU. -/
def ituTable : RangeTable where
  rows := ituRanges
  series := series_ituRanges
  bounds := bounds_ituRanges
  sorted := ordered_ituRanges.pairwise_start.imp le_of_lt
  disjoint := ordered_ituRanges.behind.imp Or.inl

/-- Members that are no country. -/
theorem noCountry_ituRanges : ∀ r ∈ ituRanges, r.iso = none →
    r ∈ [⟨"4UA", "4UZ", none⟩, ⟨"4YA", "4YZ", none⟩, ⟨"C7A", "C7Z", none⟩] := by
  decide +kernel

theorem shape_ituRanges : ∀ r ∈ ituRanges,
    (r.start.toList.take 1).all Char.isDigit = true →
      r.stop.toList.take 1 = r.start.toList.take 1 ∧
      (r.start.toList.drop 1).all Char.isUpper = true ∧
      (r.start.toList.take 2 < ['3', 'D'] → r.stop.toList.take 2 < ['3', 'D']) :=
  fun r hr ↦ (checked_ituRanges.1 r hr).2.2

end Ollog
