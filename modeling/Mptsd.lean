import Mptsd.PidTable
import Mptsd.Lib.Arith
import Mptsd.PsiTables
import Mptsd.Lib.Sheet
import Mptsd.Channels
import Mptsd.Conf
import Mptsd.Intake.Model
import Mptsd.Sections
import Mptsd.Intake.Rewrite
import Mptsd.Intake.Announce
import Mptsd.Intake.EitForward
import Mptsd.Intake.StreamInvariant
import Mptsd.Intake.Effects
import Mptsd.Intake.Window
import Mptsd.Writer.Model
import Mptsd.Writer.Restamp
import Mptsd.Writer.Failure
import Mptsd.Handoff.Model
import Mptsd.Handoff.Safety
import Mptsd.Mixer.Model
import Mptsd.Mixer.Fill
import Mptsd.Mixer.Observer
import Mptsd.Mixer.Gate
import Mptsd.Writer.Drift
import Mptsd.Intake.Guard
import Mptsd.Intake.Reads
import Mptsd.Intake.Service
import Mptsd.Lib.Ledger
import Mptsd.Reload.Model
import Mptsd.Reload.Ownership
import Mptsd.Lib.Stamped
import Mptsd.Ini
import Mptsd.Epg.Model
import Mptsd.Epg.Reload
import Mptsd.Lib.Numbered
import Mptsd.Psi.Model
import Mptsd.Psi.Refused
import Mptsd.Mixer.Merge
import Mptsd.Handoff.Sending
import Mptsd.Pipeline.Model
import Mptsd.Pipeline.Flow
import Mptsd.Intake.Stored
import Mptsd.Pipeline.Supply
import Mptsd.Pipeline.SyncByte
import Mptsd.Pipeline.Failover
import Mptsd.Pipeline.Counters
import Mptsd.Intake.Programs
import Mptsd.Lib.Gathering
import Mptsd.Intake.Changes
import Mptsd.Lib.RoundRobin
import Mptsd.Mixer.Fair
import Mptsd.Mixer.Iterations
import Mptsd.Mixer.Padding
import Mptsd.Mixer.Distance
import Mptsd.Lib.Timeline
import Mptsd.Writer.Clock
import Mptsd.Mixer.Spacing
import Mptsd.Reload.Load
import Mptsd.Sources
import Mptsd.Reload.Reconcile
import Mptsd.Reload.Announced
import Mptsd.Epg.Versions
import Mptsd.Lib.Cursor
import Mptsd.Mixer.Cursor
import Mptsd.Network.Response
import Mptsd.Network.Sync
import Mptsd.Transponders.Model
import Mptsd.Transponders.Install
import Mptsd.Intake.Emission
import Mptsd.Intake.Reconnect
import Mptsd.Intake.Worktime
import Mptsd.Writer.Isolation
import Mptsd.Transponders.Words
import Mptsd.Transponders.Digits
import Mptsd.Pipeline.Datagrams
import Mptsd.PidMap
import Mptsd.Urls
import Mptsd.Lib.Assign
import Mptsd.Inifile.Store
import Mptsd.Lib.Scanf
import Mptsd.Inifile.Line
import Mptsd.Lib.Lines
import Mptsd.Inifile.Load
import Mptsd.Inifile.Getters
import Mptsd.Inifile.Dump
import Mptsd.Lib.Tally
import Mptsd.Shutdown.Model
import Mptsd.Shutdown.Ending
import Mptsd.Intake.Thread
import Mptsd.Intake.Life
import Mptsd.Intake.Steps
import Mptsd.Lib.Periodic
import Mptsd.Psi.Schedule
import Mptsd.Web.Request
import Mptsd.Lib.Batches
import Mptsd.Writer.Pacing
import Mptsd.Lib.Objects
import Mptsd.Epg.Ownership
import Mptsd.Reload.Teardown
import Mptsd.Pipeline.Merge
import Mptsd.Pipeline.Threads
import Mptsd.Pipeline.Provenance
