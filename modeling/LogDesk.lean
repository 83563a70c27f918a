import LogDesk.Text.Blank
import LogDesk.Text.Decimal
import LogDesk.Text.Utf8
import LogDesk.Text.Quoted
import LogDesk.Json.Numeral
import LogDesk.Json.Printer
import LogDesk.Json.Schema
import LogDesk.Wire
import LogDesk.Log.EntryForm
import LogDesk.Markup
import LogDesk.Log.Detail
import LogDesk.Log.Row
import LogDesk.Expansion
import LogDesk.Notification
import LogDesk.Uuid
import LogDesk.Preferences.FileStore
import LogDesk.Preferences
import LogDesk.Command
import LogDesk.Script
import LogDesk.Url
import LogDesk.Api.Call
import LogDesk.Metronome
import LogDesk.Terminal
import LogDesk.Console
import LogDesk.Session
import LogDesk.Main
import LogDesk.Proofs.Tasks.Turn
import LogDesk.Proofs.Console.Run
import LogDesk.Proofs.Console.Table
import LogDesk.Proofs.Console.Refresh
import LogDesk.Proofs.Console.Newest
import LogDesk.Proofs.Console.Screen
import LogDesk.Proofs.Console.Expanded
import LogDesk.Proofs.Console.Settings
import LogDesk.Proofs.Console.Script
import LogDesk.Proofs.Console.Schedule
import LogDesk.Proofs.Console.Aside
import LogDesk.Proofs.Preferences.FileStore
import LogDesk.Proofs.Preferences.InStep
import LogDesk.Proofs.Command
import LogDesk.Proofs.Api.Endpoint
import LogDesk.Proofs.Tasks.Single
import LogDesk.Proofs.Tasks.Alone
import LogDesk.Proofs.Console.Place
import LogDesk.Proofs.Console.Polling
import LogDesk.Proofs.Console.Toasts
import LogDesk.Proofs.Console.Residue
import LogDesk.Proofs.Console.Failure
import LogDesk.Proofs.Url.Slash
import LogDesk.Proofs.Url.Folder
import LogDesk.Proofs.Url.Text
import LogDesk.Proofs.Api.Base
import LogDesk.Proofs.Uuid
import LogDesk.Proofs.Command.Grammar
import LogDesk.Proofs.Console.Said
import LogDesk.Proofs.Console.Requests
import LogDesk.Proofs.Console.Shutdown
import LogDesk.Proofs.Api.Job
import LogDesk.Proofs.Log.Detail
import LogDesk.Proofs.Metronome.Timely
import LogDesk.Proofs.Api.Answers
import LogDesk.Proofs.Wire.RoundTrip
import LogDesk.Proofs.Console.RawJson
import LogDesk.Proofs.Expansion
import LogDesk.Proofs.Log.EntryForm
import LogDesk.Proofs.Script
import LogDesk.Proofs.Terminal
import LogDesk.Proofs.Markup.Once
