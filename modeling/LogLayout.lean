import LogLayout.Bundled
import LogLayout.Bundled.Color
import LogLayout.Bundled.Date
import LogLayout.Bundled.TimeFormat
import LogLayout.Bundled.TimeFormat.Token
import LogLayout.Bundled.ZoneRules
import LogLayout.Bundled.ZonedTime
import LogLayout.Calendar.CivilTime
import LogLayout.Calendar.Date
import LogLayout.Calendar.Zone
import LogLayout.Chain
import LogLayout.Converter
import LogLayout.Converter.DateStyle
import LogLayout.Converter.OptionError
import LogLayout.Directives
import LogLayout.Facade.Event
import LogLayout.Fitting.Specifier
import LogLayout.Inspection
import LogLayout.Instant
import LogLayout.Layout
import LogLayout.Level
import LogLayout.Libraries
import LogLayout.Numeral.Count
import LogLayout.Numeral.Shortest
import LogLayout.Palette.Color
import LogLayout.Palette.LevelColors
import LogLayout.Pattern.Compile
import LogLayout.Pattern.Item
import LogLayout.Pattern.Modifiers
import LogLayout.Pattern.OptionBlock
import LogLayout.Pattern.Piece
import LogLayout.Pattern.Warning
import LogLayout.Record
import LogLayout.Report
import LogLayout.Text.Ascii
import LogLayout.Text.Blank
import LogLayout.Text.Edit
import LogLayout.Text.Padding
import LogLayout.Text.Quoted
import LogLayout.Text.Segments
import LogLayout.Text.Size
import LogLayout.TokenTable
import LogLayout.TokenTable.Registrar
import LogLayout.Trap
import LogLayout.Proofs.Chain.Fields
import LogLayout.Proofs.Layout.Calls
import LogLayout.Proofs.Layout.Coherence
import LogLayout.Proofs.Layout.TrapLog
import LogLayout.Proofs.TokenTable.Lookup
import LogLayout.Proofs.Layout.FreshBuild
import LogLayout.Proofs.Pattern.Cut
import LogLayout.Proofs.Pattern.Assembly
import LogLayout.Proofs.Pattern.Printer
import LogLayout.Proofs.Pattern.RoundTrip
import LogLayout.Proofs.Layout.Rendering
import LogLayout.Proofs.Pattern.Rejection
import LogLayout.Proofs.Layout.Refusal
import LogLayout.Proofs.Pattern.Boundary
import LogLayout.Proofs.Pattern.Joined
import LogLayout.Proofs.Pattern.Flaws
import LogLayout.Proofs.Pattern.Warnings
import LogLayout.Proofs.Pattern.Correspondence
import LogLayout.Proofs.Pattern.Lookups
import LogLayout.Proofs.Pattern.Parser.Words
import LogLayout.Proofs.Layout.UnusedBindings
import LogLayout.Proofs.Layout.TwoSettings
import LogLayout.Proofs.Layout.Recoloring
import LogLayout.Proofs.Layout.Configurations
import LogLayout.Proofs.Converter.DateStyle
import LogLayout.Proofs.Fitting.Field
import LogLayout.Proofs.Fitting.Refitting
import LogLayout.Proofs.Text.Bytes
import LogLayout.Proofs.Text.Segments
import LogLayout.Proofs.Pattern.OptionFields
import LogLayout.Proofs.Chain.Widths
import LogLayout.Proofs.TokenTable.Registrations
import LogLayout.Proofs.Calendar.DateOrder
import LogLayout.Proofs.Calendar.Digits
import LogLayout.Proofs.Calendar.Fields
import LogLayout.Proofs.Bundled.Date
import LogLayout.Proofs.Bundled.TimeFormat
import LogLayout.Proofs.Converter.IsoDates
import LogLayout.Proofs.Pattern.Parser.Positions
