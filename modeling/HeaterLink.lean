import HeaterLink.Exchange
import HeaterLink.Fleet
import HeaterLink.Session.Course
import HeaterLink.Bench.Scenario
import HeaterLink.Proofs.Calls.Connecting
import HeaterLink.Proofs.Calls.Faults
import HeaterLink.Proofs.Calls.Hello
import HeaterLink.Proofs.Commands.Contents
import HeaterLink.Proofs.Events.Subscriptions
import HeaterLink.Proofs.Fleet.Spelling
import HeaterLink.Proofs.Link.Agreement
import HeaterLink.Proofs.Link.Custody
import HeaterLink.Proofs.Link.Sharing
import HeaterLink.Proofs.Link.Subscribing
import HeaterLink.Proofs.Link.Truth
import HeaterLink.Proofs.Readings.Profiles
import HeaterLink.Proofs.Reassembly.Counters
import HeaterLink.Proofs.Reassembly.Forgetting
import HeaterLink.Proofs.Reassembly.Redelivery
import HeaterLink.Proofs.Reassembly.Repeats
import HeaterLink.Proofs.Requests.Completeness
import HeaterLink.Proofs.Requests.Displaced
import HeaterLink.Proofs.Requests.Freshness
import HeaterLink.Proofs.Requests.Slot
import HeaterLink.Proofs.Requests.Strands
import HeaterLink.Proofs.Temperature.Rounding
import HeaterLink.Proofs.Temperature.Setting
